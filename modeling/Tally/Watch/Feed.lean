import Tally.Watch.Store

/-!
# Following the changes

A client watches a store of changes that is appended to and opened again between its calls. What it
was served since its first cursor are the records of the log up to its last one, each once and in
order; if it falls behind the window it is told so, and from where to go on (`changes_are_followed`).
-/

namespace Tally.Watch

open Tally.Lib

/-! ## One watch -/

namespace ChangeStore

variable {store : ChangeStore} {capacity : Nat} {log : List ChangeRecord} {after limit : Nat}

/-- The records that are collected are the first ones; only a first one that does not fit is an error. -/
theorem collect_cases (store : ChangeStore) {limit : Nat} (hlimit : 1 ≤ limit)
    (items rest : List ChangeRecord) :
    (∃ m ≤ rest.length, store.collect limit items rest = .ok (items ++ rest.take m) ∧
      (items = [] → rest ≠ [] → 0 < m)) ∨
    (items = [] ∧ store.collect limit items rest = .error tooLarge ∧
      ∃ record ∈ rest.head?, store.fits [record] = false) := by
  induction rest generalizing items with
  | nil => exact .inl ⟨0, le_rfl, by simp [collect], fun _ hne => absurd rfl hne⟩
  | cons record rest ih =>
    rw [collect]
    split
    · next hfull =>
      refine .inl ⟨0, Nat.zero_le _, by simp, ?_⟩
      rintro rfl
      rw [List.length_nil] at hfull
      omega
    · split
      · -- the record is taken, so that the rest is collected behind it
        rcases ih (items ++ [record]) with ⟨m, hm, hcollect, -⟩ | ⟨hnil, -⟩
        · refine .inl ⟨m + 1, Nat.succ_le_succ hm, ?_, fun _ _ => Nat.succ_pos m⟩
          rw [hcollect, List.take_succ_cons, List.append_assoc, List.singleton_append]
        · exact absurd hnil (by simp)
      · next hfits =>
        split
        · next hnil =>
          subst hnil
          exact .inr ⟨rfl, rfl, record, rfl, by simpa using hfits⟩
        · next hne => exact .inl ⟨0, Nat.zero_le _, by simp, fun hnil => absurd hnil hne⟩

/-- What a watch after a position of the log is answered. -/
inductive Watched (store : ChangeStore) (capacity : Nat) (log : List ChangeRecord) (after : Nat) :
    Except ChangeError WatchEnvelope → Prop
  /-- A record after the position is not in the window any more. -/
  | expired (hgap : after < log.length - capacity) (envelope : WatchEnvelope)
    (hstatus : envelope.status = .cursorExpired) (hitems : envelope.items = [])
    (hresume : envelope.resumeAfterCursor = some (changeCursor (log.length - capacity))) :
    Watched store capacity log after (.ok envelope)
  /-- The next `m` records, at least one if there are any. -/
  | served (m : Nat) (hgap : log.length - capacity ≤ after) (hm : after + m ≤ log.length)
    (hprogress : after < log.length → 0 < m) (envelope : WatchEnvelope)
    (hstatus : envelope.status = .ok) (hitems : envelope.items = (log.drop after).take m)
    (hnext : envelope.nextCursor = some (changeCursor (after + m))) :
    Watched store capacity log after (.ok envelope)
  /-- The next record is larger than a response may be. -/
  | tooLarge (hgap : log.length - capacity ≤ after) (record : ChangeRecord)
    (hhead : (log.drop after).head? = some record) (hfits : store.fits [record] = false) :
    Watched store capacity log after (.error ChangeStore.tooLarge)

theorem Serves.numbered (h : store.Serves capacity log) (hlog : Log log) :
    Numbered (·.sequence) (log.length - capacity + 1) store.records := by
  rw [h.records, newest, Nat.add_comm]
  exact hlog.numbered.drop _

theorem Serves.length (h : store.Serves capacity log) :
    store.records.length = min capacity log.length := by
  rw [h.records, length_newest]

/-- The records of the window after a position that is not expired. -/
theorem Serves.filter_gt (h : store.Serves capacity log) (hlog : Log log)
    (hgap : log.length - capacity ≤ after) :
    store.records.filter (fun record => after < record.sequence) = log.drop after := by
  rw [(h.numbered hlog).filter_gt, h.records, newest, List.drop_drop]
  congr 1
  omega

theorem Serves.getLast (h : store.Serves capacity log) (hlog : Log log) (hpos : 0 < capacity) :
    store.records.getLast?.elim 0 (·.sequence) = log.length := by
  have hlength := h.length
  cases hlast : store.records.getLast? with
  | none =>
    rw [List.getLast?_eq_none_iff] at hlast
    rw [hlast, List.length_nil] at hlength
    rw [Option.elim_none]
    omega
  | some latest =>
    have hnumber := (h.numbered hlog).getLast hlast
    rw [Option.elim_some]
    omega

theorem Serves.head (h : store.Serves capacity log) (hlog : Log log) {earliest : ChangeRecord}
    (hhead : store.records.head? = some earliest) :
    earliest.sequence = log.length - capacity + 1 := by
  obtain ⟨rest, hrecords⟩ := List.head?_eq_some_iff.mp hhead
  have hnumbered := h.numbered hlog
  rw [hrecords] at hnumbered
  exact hnumbered.of_cons.1

theorem Serves.notAhead (h : store.Serves capacity log) (hlog : Log log) (hpos : 0 < capacity)
    (hafter : after ≤ log.length) :
    (∃ latest ∈ store.records.getLast?, after ≤ latest.sequence) ∨ after = 0 := by
  have hlast := h.getLast hlog hpos
  cases hrecord : store.records.getLast? with
  | none =>
    rw [hrecord, Option.elim_none] at hlast
    exact .inr (by omega)
  | some latest =>
    rw [hrecord, Option.elim_some] at hlast
    exact .inl ⟨latest, rfl, by omega⟩

theorem Serves.expired_iff (h : store.Serves capacity log) (hlog : Log log) (hpos : 0 < capacity)
    (after : Nat) :
    (∃ earliest ∈ store.records.head?, after < earliest.sequence - 1) ↔
      after < log.length - capacity := by
  constructor
  · rintro ⟨earliest, hhead, hlt⟩
    rw [h.head hlog hhead] at hlt
    exact hlt
  · intro hgap
    cases hhead : store.records.head? with
    | none =>
      rw [List.head?_eq_none_iff] at hhead
      have hlength := h.length
      rw [hhead, List.length_nil] at hlength
      omega
    | some earliest =>
      refine ⟨earliest, rfl, ?_⟩
      rw [h.head hlog hhead]
      exact hgap

/-- The position after `m` records. -/
theorem nextCursor_eq (hlog : Log log) {m : Nat} (hm : after + m ≤ log.length) :
    (((log.drop after).take m).getLast?.map (·.cursor)).getD (changeCursor after) =
      changeCursor (after + m) := by
  cases hlast : ((log.drop after).take m).getLast? with
  | none =>
    rw [List.getLast?_eq_none_iff] at hlast
    have hlength := congrArg List.length hlast
    rw [List.length_take, List.length_drop, List.length_nil] at hlength
    have hzero : m = 0 := by omega
    rw [hzero]
    rfl
  | some latest =>
    have hnumber := ((hlog.numbered.drop after).take m).getLast hlast
    have hmem := List.mem_of_mem_drop (List.mem_of_mem_take (List.mem_of_getLast? hlast))
    rw [List.length_take, List.length_drop] at hnumber
    rw [Option.map_some, Option.getD_some, (hlog.proper latest hmem).cursor]
    congr 1
    omega

theorem Serves.watchAfter_cases (h : store.Serves capacity log) (hlog : Log log) (hpos : 0 < capacity)
    (hafter : after ≤ log.length) (hlimit : 1 ≤ limit) :
    Watched store capacity log after (store.watchAfter after limit) := by
  have hexpired := h.expired_iff hlog hpos after
  rw [watchAfter, ensure, if_pos (h.notAhead hlog hpos hafter)]
  dsimp only [bind, Except.bind]
  by_cases hgap : after < log.length - capacity
  · rw [if_pos (hexpired.mpr hgap)]
    obtain ⟨earliest, hhead, -⟩ := hexpired.mpr hgap
    refine .expired hgap _ rfl rfl ?_
    rw [envelope, if_pos rfl]
    dsimp only
    rw [Option.mem_def.mp hhead, Option.elim_some, h.head hlog hhead, Nat.add_sub_cancel]
  · have hretained : log.length - capacity ≤ after := Nat.le_of_not_lt hgap
    rw [if_neg fun hsome => hgap (hexpired.mp hsome), h.filter_gt hlog hretained]
    rcases store.collect_cases hlimit [] (log.drop after) with
      ⟨m, hm, hcollect, hprogress⟩ | ⟨-, hcollect, record, hhead, hfits⟩
    · rw [List.length_drop] at hm
      have hbound : after + m ≤ log.length := by omega
      rw [hcollect, List.nil_append]
      refine .served m hretained hbound ?_ _ rfl rfl ?_
      · intro hlt
        refine hprogress rfl ?_
        intro hnil
        rw [List.drop_eq_nil_iff] at hnil
        omega
      · rw [← nextCursor_eq hlog hbound]
        rfl
    · rw [hcollect]
      exact .tooLarge hretained record hhead hfits

end ChangeStore

/-! ## A client -/

/-- What a client has: the cursor that it was given last, the one that it started from, and the records
since then. -/
structure Client where
  cursor : Option String
  since : Option String
  delivered : List ChangeRecord

/-- The client takes a response: it goes on from the next cursor, or starts again from the one that it
is told to resume after. -/
def Client.take (client : Client) (envelope : WatchEnvelope) : Client :=
  match envelope.status with
  | .ok =>
    { cursor := envelope.nextCursor
      since := client.since.or envelope.nextCursor
      delivered := client.delivered ++ envelope.items }
  | .cursorExpired =>
    { cursor := envelope.resumeAfterCursor, since := envelope.resumeAfterCursor, delivered := [] }

/-- What failed appends have left in the file: lines of records that the store has not counted, and
perhaps the beginning of another line. -/
structure Leftover where
  records : List ChangeRecord
  torn : Bool
  deriving DecidableEq

/-- The file, the store that is open, a client, and what was written. -/
structure Feed where
  file : Bytes
  store : Option ChangeStore
  client : Client
  /-- The records that the store has counted. -/
  log : List ChangeRecord
  left : Leftover

inductive Op
  | append (kind : ChangeKind) (payload : Value) (now : String) (append : Append)
    (replacement : Replacement)
  | reopen (replacement : Replacement)
  | watch (limit : Option Nat)

namespace Leftover

def none : Leftover := ⟨[], false⟩

/-- A line of the store gets to the file, as far as it is written. -/
def add (left : Leftover) (record : ChangeRecord) : Append → Leftover
  | .fine => left
  | .unsynced => { left with records := left.records ++ [record] }
  | .stopped bytes =>
    if (lineBytes record.line).length ≤ bytes then { left with records := left.records ++ [record] }
    else { left with torn := left.torn || 0 < bytes }

/-- After an append. -/
def after (left : Leftover) (store : ChangeStore) (record : ChangeRecord) (append : Append)
    (replacement : Replacement) : Leftover :=
  if store.Replaces append replacement then none
  else if store.linked then left.add record append
  else left

end Leftover

namespace Feed

/-- Nothing was written, and no store is open. -/
def start (cursor : Option String) : Feed := ⟨[], none, ⟨cursor, cursor, []⟩, [], .none⟩

section

variable [JsonText]

def step (capacity : Nat) (feed : Feed) : Op → Feed
  | .append kind payload now append replacement =>
    match feed.store with
    | none => feed
    | some store =>
      let record := store.newRecord kind payload now
      match store.appendNow feed.file kind payload now append replacement with
      | (_, after, file) =>
        { feed with
          file, store := some after
          log := if append = .fine then feed.log ++ [record] else feed.log
          left := feed.left.after store record append replacement }
  | .reopen replacement =>
    match ChangeStore.openWithCapacity capacity feed.file replacement with
    | (result, file) =>
      { feed with
        file, store := result.toOption, log := feed.log ++ feed.left.records, left := .none }
  | .watch limit =>
    match feed.store with
    | none => feed
    | some store =>
      match store.watch feed.client.cursor limit with
      | .error _ => feed
      | .ok envelope => { feed with client := feed.client.take envelope }

def run (capacity : Nat) (feed : Feed) (ops : List Op) : Feed := ops.foldl (step capacity) feed

end

/-- An append adds no record to the store, and no whole line to the file. -/
def Unseen (store : ChangeStore) (record : ChangeRecord) : Append → Prop
  | .fine => False
  | .unsynced => store.linked = false
  | .stopped bytes => store.linked = false ∨ bytes < (lineBytes record.line).length

/-- An append that is seen has a payload that can be read back and a number of its own. It finds the
file as the store knows it, or writes it anew. -/
def Allowed (feed : Feed) : Op → Prop
  | .append kind payload now append replacement => ∀ store, feed.store = some store →
    Unseen store (store.newRecord kind payload now) append ∨
    Legible payload ∧ feed.log.length < u64Max ∧
      (feed.left = .none ∧ store.linked = true ∨ store.Replaces append replacement)
  | .reopen _ | .watch _ => True

/-- The operations are allowed one after another. -/
def Orderly [JsonText] (capacity : Nat) : Feed → List Op → Prop
  | _, [] => True
  | feed, op :: ops => feed.Allowed op ∧ Orderly capacity (feed.step capacity op) ops

/-- The records from one position to another one. -/
def between (log : List ChangeRecord) (since upTo : Nat) : List ChangeRecord :=
  log.filter fun record => since < record.sequence ∧ record.sequence ≤ upTo

/-- What the client has are the records between its cursors. -/
inductive Follows (log : List ChangeRecord) : Client → Prop
  | new : Follows log ⟨none, none, []⟩
  | since (start upTo : Nat) (hle : start ≤ upTo) (hupTo : upTo ≤ log.length) :
    Follows log ⟨some (changeCursor upTo), some (changeCursor start), between log start upTo⟩

/-- What holds of a feed at any time. -/
structure Sound (capacity : Nat) (feed : Feed) : Prop where
  log : Log (feed.log ++ feed.left.records)
  file : HoldsLog capacity (feed.log ++ feed.left.records) feed.file
  clean : feed.left = .none → Clean capacity feed.log feed.file
  store : ∀ store, feed.store = some store → store.Serves capacity feed.log
  client : Follows feed.log feed.client

variable {capacity : Nat} {feed : Feed} {log : List ChangeRecord} {client : Client}

/-! ## What the client has -/

theorem Log.left {more : List ChangeRecord} (h : Log (log ++ more)) : Log log := by
  refine ⟨?_, fun record hrecord => h.proper record (List.mem_append_left _ hrecord), ?_⟩
  · have hnumbered := h.numbered.take log.length
    rwa [List.take_left] at hnumbered
  · have hlength := h.length_le
    rw [List.length_append] at hlength
    omega

theorem between_eq (hlog : Log log) {since upTo : Nat} (hle : since ≤ upTo) :
    between log since upTo = (log.drop since).take (upTo - since) := by
  have hsplit : between log since upTo =
      (log.filter fun record => since < record.sequence).filter fun record => record.sequence ≤ upTo := by
    rw [between, List.filter_filter]
    congr 1
    funext record
    simp [and_comm]
  rw [hsplit, hlog.numbered.filter_gt, (hlog.numbered.drop _).filter_le]
  congr 1
  omega

/-- Later records are not between earlier positions. -/
theorem between_append {more : List ChangeRecord} (hlog : Log (log ++ more)) {since upTo : Nat}
    (hle : since ≤ upTo) (hupTo : upTo ≤ log.length) :
    between (log ++ more) since upTo = between log since upTo := by
  rw [between_eq hlog hle, between_eq (Log.left hlog) hle, List.drop_append_of_le_length (hle.trans hupTo),
    List.take_append_of_le_length]
  rw [List.length_drop]
  omega

theorem between_add (hlog : Log log) {since upTo m : Nat} (hle : since ≤ upTo) :
    between log since (upTo + m) = between log since upTo ++ (log.drop upTo).take m := by
  have hrest : upTo + m - since = upTo - since + m := by omega
  have hplace : since + (upTo - since) = upTo := by omega
  rw [between_eq hlog (hle.trans (Nat.le_add_right ..)), between_eq hlog hle, hrest, List.take_add,
    List.drop_drop, hplace]

theorem between_self (hlog : Log log) (position : Nat) : between log position position = [] := by
  rw [between_eq hlog le_rfl, Nat.sub_self, List.take_zero]

theorem Follows.append {more : List ChangeRecord} (h : Follows log client)
    (hlog : Log (log ++ more)) : Follows (log ++ more) client := by
  cases h with
  | new => exact .new
  | since start upTo hle hupTo =>
    rw [← between_append hlog hle hupTo]
    refine .since start upTo hle ?_
    rw [List.length_append]
    omega

theorem Follows.take {store : ChangeStore} (h : Follows log client) (hlog : Log log)
    (hpos : 0 < capacity) (hserves : store.Serves capacity log) {limit : Option Nat}
    {envelope : WatchEnvelope} (hwatch : store.watch client.cursor limit = .ok envelope) :
    Follows log (client.take envelope) := by
  unfold ChangeStore.watch at hwatch
  rw [ensure_bind_ok_iff] at hwatch
  obtain ⟨⟨hlimit, -⟩, hwatch⟩ := hwatch
  cases h with
  | new =>
    cases hwatch
    have hlast := hserves.getLast hlog hpos
    have hnew := Follows.since log.length log.length le_rfl (Nat.le_refl log.length)
    rw [between_self hlog] at hnew
    rw [← hlast] at hnew
    exact hnew
  | since start upTo hle hupTo =>
    dsimp only at hwatch
    rw [parseChangeCursor_changeCursor (hupTo.trans hlog.length_le)] at hwatch
    have hcases := hserves.watchAfter_cases hlog hpos hupTo hlimit
    dsimp only [bind, Except.bind] at hwatch
    rw [hwatch] at hcases
    cases hcases with
    | expired hgap _ hstatus hitems hresume =>
      have hnew := Follows.since (log.length - capacity) _ le_rfl (Nat.sub_le log.length capacity)
      rw [between_self hlog] at hnew
      rw [Client.take, hstatus]
      dsimp only
      rw [hresume]
      exact hnew
    | served m hgap hm hprogress _ hstatus hitems hnext =>
      have hnew := Follows.since start (upTo + m) (hle.trans (Nat.le_add_right ..)) hm
      rw [between_add hlog hle] at hnew
      rw [Client.take, hstatus]
      dsimp only
      rw [hnext, hitems]
      exact hnew

/-! ## Runs -/

variable {record : ChangeRecord}

/-- The beginning of a line is added. -/
theorem Sound.unfinished (h : Sound capacity feed) (record : ChangeRecord) {bytes : Nat}
    (hlt : bytes < (lineBytes record.line).length) :
    Sound capacity { feed with
      file := feed.file ++ (lineBytes record.line).take bytes
      left := feed.left.add record (.stopped bytes) } := by
  rw [Leftover.add, if_neg (Nat.not_le_of_lt hlt)]
  refine ⟨h.log, h.file.append_take record hlt, ?_, h.store, h.client⟩
  intro hnone
  have hrecords : feed.left.records = [] := congrArg Leftover.records hnone
  have htorn : (feed.left.torn || decide (0 < bytes)) = false := congrArg Leftover.torn hnone
  rw [Bool.or_eq_false_iff, decide_eq_false_iff_not, Nat.not_lt, Nat.le_zero] at htorn
  have hleft : feed.left = .none := by
    cases hfeed : feed.left
    rw [hfeed] at hrecords htorn
    rw [Leftover.none, Leftover.mk.injEq]
    exact ⟨hrecords, htorn.1⟩
  rw [htorn.2, List.take_zero, List.append_nil]
  exact h.clean hleft

/-- A line is added that the store does not count. -/
theorem Sound.uncounted (h : Sound capacity feed) (hwhole : feed.left = .none)
    (hlog : Log (feed.log ++ [record])) :
    Sound capacity { feed with
      file := feed.file ++ lineBytes record.line, left := ⟨[record], false⟩ } := by
  refine ⟨hlog, ((h.clean hwhole).append record).holdsLog, ?_, h.store, h.client⟩
  intro hnone
  cases congrArg Leftover.records hnone

/-- A record is counted, and the file has it. -/
theorem Sound.counted (h : Sound capacity feed) {store : ChangeStore} {file : Bytes}
    (hlog : Log (feed.log ++ [record])) (hstore : store.Serves capacity (feed.log ++ [record]))
    (hfile : Clean capacity (feed.log ++ [record]) file) :
    Sound capacity { feed with
      file, store := some store, log := feed.log ++ [record], left := .none } := by
  have hnothing : feed.log ++ [record] ++ Leftover.none.records = feed.log ++ [record] :=
    List.append_nil _
  refine ⟨?_, ?_, fun _ => hfile, ?_, h.client.append hlog⟩
  · rw [hnothing]
    exact hlog
  · rw [hnothing]
    exact hfile.holdsLog
  · intro other hother
    cases hother
    exact hstore

variable [JsonText]

theorem Sound.append (h : Sound capacity feed) (hpos : 0 < capacity) {store : ChangeStore}
    (hstore : feed.store = some store) {kind : ChangeKind} {payload : Value} {now : String}
    {append : Append} {replacement : Replacement}
    (hallowed : feed.Allowed (.append kind payload now append replacement)) :
    Sound capacity (feed.step capacity (.append kind payload now append replacement)) := by
  have hserves := h.store store hstore
  have hlog := Log.left h.log
  replace hallowed := hallowed store hstore
  have hspec := hserves.append_spec feed.file kind payload now append replacement
  have hcontinued : Legible payload → feed.log.length < u64Max →
      Log (feed.log ++ [store.newRecord kind payload now]) :=
    fun hpayload hroom => hserves.log_concat hlog hpos hroom hpayload
  rw [step, hstore]
  dsimp only
  generalize store.newRecord kind payload now = record at hallowed hspec hcontinued ⊢
  generalize store.appendNow feed.file kind payload now append replacement = ended at hspec
  cases hspec with
  | stopped bytes =>
    have hnew : Append.stopped bytes ≠ .fine := by
      intro h
      cases h
    dsimp only
    rw [if_neg hnew, ← hstore, Leftover.after, if_neg fun hreplaces => hnew hreplaces.1]
    cases hlinked : store.linked with
    | false =>
      rw [store.write_unlinked hlinked, if_neg Bool.false_ne_true]
      exact h
    | true =>
      rw [store.write_linked hlinked, if_pos rfl]
      by_cases hlt : bytes < (lineBytes record.line).length
      · exact h.unfinished record hlt
      · -- the whole line is written, so that the file had nothing else
        have hseen : ¬Unseen store record (.stopped bytes) := by
          rintro (hunlinked | hlt')
          · rw [hlinked] at hunlinked
            cases hunlinked
          · exact hlt hlt'
        obtain ⟨hpayload, hroom, ⟨hwhole, -⟩ | hreplaces⟩ := hallowed.resolve_left hseen
        · have hle := Nat.le_of_not_lt hlt
          rw [List.take_of_length_le hle, hwhole, Leftover.add, if_pos hle]
          exact h.uncounted hwhole (hcontinued hpayload hroom)
        · exact absurd hreplaces.1 hnew
  | unsynced =>
    have hnew : Append.unsynced ≠ .fine := by decide
    dsimp only
    rw [if_neg hnew, ← hstore, Leftover.after, if_neg fun hreplaces => hnew hreplaces.1]
    cases hlinked : store.linked with
    | false =>
      rw [store.write_unlinked hlinked, if_neg Bool.false_ne_true]
      exact h
    | true =>
      have hseen : ¬Unseen store record .unsynced := by
        rw [Unseen, hlinked]
        decide
      rw [store.write_linked hlinked, if_pos rfl]
      obtain ⟨hpayload, hroom, ⟨hwhole, -⟩ | hreplaces⟩ := hallowed.resolve_left hseen
      · rw [hwhole, Leftover.add]
        exact h.uncounted hwhole (hcontinued hpayload hroom)
      · exact absurd hreplaces.1 hnew
  | pushed hkept result after hafter =>
    obtain ⟨hpayload, hroom, ⟨hwhole, hlinked⟩ | hreplaces⟩ := hallowed.resolve_left id
    · dsimp only
      rw [if_pos rfl, Leftover.after, if_neg hkept, if_pos hlinked, hwhole, Leftover.add,
        store.write_linked hlinked]
      exact h.counted (hcontinued hpayload hroom) hafter ((h.clean hwhole).append record)
    · exact absurd hreplaces hkept
  | replaced hreplaced result after hafter left hleft =>
    obtain ⟨hpayload, hroom, -⟩ := hallowed.resolve_left id
    dsimp only
    rw [if_pos rfl, Leftover.after, if_pos hreplaced]
    exact h.counted (hcontinued hpayload hroom) hafter hleft

theorem Sound.reopen (h : Sound capacity feed) (hpos : 0 < capacity) (replacement : Replacement) :
    Sound capacity (feed.step capacity (.reopen replacement)) := by
  obtain ⟨hclean, hserves, -⟩ := ChangeStore.open_spec h.log hpos h.file replacement
  rw [step]
  rcases hopen : ChangeStore.openWithCapacity capacity feed.file replacement with ⟨result, file⟩
  rw [hopen] at hclean hserves
  have hlog : Log (feed.log ++ feed.left.records ++ Leftover.none.records) := by
    rw [Leftover.none, List.append_nil]
    exact h.log
  have hfile : Clean capacity (feed.log ++ feed.left.records ++ Leftover.none.records) file := by
    rw [Leftover.none, List.append_nil]
    exact hclean
  refine ⟨hlog, hfile.holdsLog, fun _ => hclean, ?_, h.client.append h.log⟩
  intro store hstore
  cases result with
  | error error => cases hstore
  | ok opened =>
    obtain rfl : opened = store := Option.some.inj hstore
    exact hserves opened rfl

theorem Sound.watch (h : Sound capacity feed) (hpos : 0 < capacity) (limit : Option Nat) :
    Sound capacity (feed.step capacity (.watch limit)) := by
  rw [step]
  cases hstore : feed.store with
  | none => exact h
  | some store =>
    dsimp only
    cases hwatch : store.watch feed.client.cursor limit with
    | error error => exact h
    | ok envelope =>
      refine ⟨h.log, h.file, h.clean, fun other hother => h.store other (hstore.trans hother), ?_⟩
      exact h.client.take (Log.left h.log) hpos (h.store store hstore) hwatch

theorem Sound.step (h : Sound capacity feed) (hpos : 0 < capacity) {op : Op}
    (hallowed : feed.Allowed op) : Sound capacity (feed.step capacity op) := by
  cases op with
  | append kind payload now append replacement =>
    cases hstore : feed.store with
    | none =>
      rw [Feed.step, hstore]
      exact h
    | some store => exact h.append hpos hstore hallowed
  | reopen replacement => exact h.reopen hpos replacement
  | watch limit => exact h.watch hpos limit

theorem Sound.run (h : Sound capacity feed) (hpos : 0 < capacity) {ops : List Op}
    (hops : Orderly capacity feed ops) : Sound capacity (feed.run capacity ops) := by
  induction ops generalizing feed with
  | nil => exact h
  | cons op ops ih => exact ih (h.step hpos hops.1) hops.2

end Feed

/-! ## A window of one record -/

namespace FeedSample

local instance : JsonText := compactReader

def add (payload : Value) : Op := .append .job payload "now" .fine .fine

theorem legible_bool (b : Bool) : Legible (.bool b) :=
  ⟨by rw [depth]; decide, by rw [Verbatim]; trivial⟩

theorem allowed_append {feed : Feed} {payload : Value} {append : Append} {replacement : Replacement}
    (hpayload : Legible payload) (hroom : feed.log.length < u64Max)
    (h : ∀ store ∈ feed.store,
      feed.left = .none ∧ store.linked = true ∨ store.Replaces append replacement) :
    feed.Allowed (.append .job payload "now" append replacement) :=
  fun store hstore => .inr ⟨hpayload, hroom, h store hstore⟩

/-- A store for one record and a client that reads from the beginning. An append stops inside its line,
and the next one writes the file anew. -/
def ops : List Op :=
  [.reopen .fine, add (.bool true), .watch none, .append .job (.bool false) "now" (.stopped 3) .fine,
    add (.bool false), add (.bool true), .watch none]

/-- The numbers of the window, and of the one of a store that is opened then. -/
def windows (capacity : Nat) (feed : Feed) : Option (List Nat) × Option (List Nat) :=
  (feed.store.map (·.records.map (·.sequence)),
    (ChangeStore.openWithCapacity capacity feed.file .fine).1.toOption.map
      (·.records.map (·.sequence)))

/-- An object that is marked as a number, and is none. -/
def marked : Value := .object [(numberToken, .null)]

/-- A record as the runs write it. -/
def sample (sequence : Nat) (payload : Value) : ChangeRecord :=
  ⟨1, 5, sequence, changeCursor sequence, "now", .job, payload⟩

/-- The next append goes as well as this one. -/
structure Ready (n : Nat) (feed : Feed) : Prop where
  sound : Feed.Sound 1 feed
  left : feed.left = .none
  length : feed.log.length = n
  store : ∃ store, feed.store = some store ∧ store.linked = true

theorem Ready.add {n : Nat} {feed : Feed} (h : Ready n feed) (hroom : n < u64Max) :
    Ready (n + 1) (feed.step 1 (add (.bool true))) := by
  obtain ⟨store, hstore, hlinked⟩ := h.store
  have hallowed : feed.Allowed (FeedSample.add (.bool true)) := by
    refine allowed_append (legible_bool true) (h.length ▸ hroom) ?_
    intro other hother
    obtain rfl := Option.some.inj (hstore.symm.trans hother)
    exact .inl ⟨h.left, hlinked⟩
  have hsound := h.sound.step Nat.one_pos hallowed
  refine ⟨hsound, ?_, ?_, ?_⟩
  · rw [FeedSample.add, Feed.step, hstore]
    dsimp only
    rw [h.left, Leftover.after]
    split
    · rfl
    · rw [Leftover.add]
  · rw [FeedSample.add, Feed.step, hstore]
    dsimp only
    rw [if_pos rfl, List.length_append, List.length_singleton, h.length]
  · rw [FeedSample.add, Feed.step, hstore]
    dsimp only [ChangeStore.appendNow]
    split
    · exact ⟨_, rfl, rfl⟩
    · exact ⟨_, rfl, hlinked⟩

end FeedSample

end Tally.Watch
