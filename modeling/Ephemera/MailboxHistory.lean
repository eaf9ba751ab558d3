/-
# Dead-drop mailboxes over whole runs

`DeadDropService` keeps the messages for offline recipients in one table, one row for each
message id.  Five queries compare the expiry of a row with the clock.  The run keeps, beside
the database, the history of the table: each deposit that went through, with the time it was
made at, and each row that an acknowledgement or the garbage collection took away.

`mailbox_consistency` says what the queries answer in terms of that history, after any run.
Nothing is assumed of the clock; one that stands before the Unix epoch makes `Timestamp::now`
panic.
-/
import Ephemera.GuardedRun
import Ephemera.KeyHistory
import Ephemera.MessageLifetime

namespace Messaging

variable {W : Wire}

/-! ## The rest of `DeadDropService` -/

/-- `Timestamp::now`; the seconds of `SystemTime` are an `i64`, and the call panics when they
are negative. -/
def timestampNow (clock : Int64) : Option UInt64 :=
  if 0 ≤ clock then some clock.toUInt64 else none

/-- `DeadDropService::deposit`, for the serialisation `toVec`. -/
def deposit (toVec : W.Sealed → Except String W.Bytes) (db : MetadataDb W)
    (recipient : IdentityKey) (sealed : W.Sealed) (now : UInt64) :
    Except MessageError (W.Digest × MetadataDb W) := do
  let sealedData ← (toVec sealed).mapError .deserialization
  if maxSqlInteger < now ∨ maxSqlInteger < now + deadDropMaxTtlSecs then
    throw (.database "out of range integral type conversion attempted")
  return (W.blake3 sealedData, { db with
    deadDrops := db.deadDrops.insertOrIgnore (W.blake3 sealedData)
      ⟨mailboxKey recipient, sealedData, now, now + deadDropMaxTtlSecs⟩ })

/-- The `WHERE` clause of `check_mailbox` and `mailbox_count`. -/
def isPending (mailbox : W.Digest) (now : UInt64) (row : DeadDropRow W) : Bool :=
  decide (row.mailboxKey = mailbox) && decide (now.toInt64 < row.expiresAt.toInt64)

/-- The query of `check_mailbox`, for a mailbox key. -/
def pending (db : MetadataDb W) (mailbox : W.Digest) (now : UInt64) : List (PendingMessage W) :=
  ((db.deadDrops.selectWhere (fun _ row => isPending mailbox now row)).mergeSort
    (fun a b => decide (a.2.depositedAt.toInt64 ≤ b.2.depositedAt.toInt64))).map
    (fun r => ⟨r.1, r.2.sealedData, r.2.depositedAt, r.2.expiresAt⟩)

/-- `DeadDropService::mailbox_count`. -/
def mailboxCount (db : MetadataDb W) (pubkey : IdentityKey) (now : UInt64) : ℕ :=
  (db.deadDrops.selectWhere (fun _ row => isPending (mailboxKey pubkey) now row)).length

/-- `check_mailbox` asks for the mailbox of a public key. -/
theorem checkMailbox_eq_pending (db : MetadataDb W) (ours : IdentityKey) (now : UInt64) :
    checkMailbox db ours now = pending db (mailboxKey ours) now := rfl

theorem deposit_eq_ok {toVec : W.Sealed → Except String W.Bytes} {db db' : MetadataDb W}
    {recipient : IdentityKey} {sealed : W.Sealed} {now : UInt64} {id : W.Digest} :
    deposit toVec db recipient sealed now = .ok (id, db') ↔
      ∃ sealedData, toVec sealed = .ok sealedData ∧
        ¬(maxSqlInteger < now ∨ maxSqlInteger < now + deadDropMaxTtlSecs) ∧
        id = W.blake3 sealedData ∧
        db' = { db with
          deadDrops := db.deadDrops.insertOrIgnore id
            ⟨mailboxKey recipient, sealedData, now, now + deadDropMaxTtlSecs⟩ } := by
  unfold deposit
  cases hvec : toVec sealed with
  | error e => simp [Except.mapError, bind, Except.bind]
  | ok sealedData =>
    by_cases hsql : maxSqlInteger < now ∨ maxSqlInteger < now + deadDropMaxTtlSecs
    · simp [Except.mapError, bind, Except.bind, hsql, throw, throwThe, MonadExceptOf.throw]
    · simp only [Except.mapError, bind, Except.bind, if_neg hsql, pure, Except.pure,
        Except.ok.injEq, Prod.mk.injEq, exists_eq_left']
      constructor
      · rintro ⟨rfl, rfl⟩
        exact ⟨hsql, rfl, rfl⟩
      · rintro ⟨-, rfl, rfl⟩
        exact ⟨rfl, rfl⟩

theorem acknowledge_eq_ok {db db' : MetadataDb W} {messageId : W.Digest} :
    acknowledge db messageId = .ok db' ↔
      db.deadDrops.get? messageId ≠ none ∧ db' = { db with
        deadDrops := db.deadDrops.deleteWhere (fun k _ => decide (k = messageId)) } := by
  unfold acknowledge
  by_cases h : db.deadDrops.get? messageId = none
  · simp [h]
  · simp [h, eq_comm]

/-! ## Times that SQLite stores -/

theorem le_maxSqlInteger_iff {x : UInt64} : x ≤ maxSqlInteger ↔ x.toNat < 2 ^ 63 := by
  have hmax : maxSqlInteger.toNat = 2 ^ 63 - 1 := rfl
  rw [UInt64.le_iff_toNat_le, hmax]
  omega

/-- Below `2 ^ 63` the comparison of `i64` values is that of `u64` values. -/
theorem toInt64_lt_iff {a b : UInt64} (ha : a ≤ maxSqlInteger) (hb : b ≤ maxSqlInteger) :
    a.toInt64 < b.toInt64 ↔ a < b := by
  have ha' : a.toInt64.toInt = a.toNat :=
    MessageLifetime.castKeeps_iff.mpr (le_maxSqlInteger_iff.mp ha)
  have hb' : b.toInt64.toInt = b.toNat :=
    MessageLifetime.castKeeps_iff.mpr (le_maxSqlInteger_iff.mp hb)
  rw [Int64.lt_iff_toInt_lt, ha', hb', UInt64.lt_iff_toNat_lt]
  omega

theorem toInt64_le_iff {a b : UInt64} (ha : a ≤ maxSqlInteger) (hb : b ≤ maxSqlInteger) :
    a.toInt64 ≤ b.toInt64 ↔ a ≤ b := by
  rw [← Int64.not_lt, ← UInt64.not_lt, toInt64_lt_iff hb ha]

theorem isPending_iff {mailbox : W.Digest} {now : UInt64} {row : DeadDropRow W}
    (hnow : now ≤ maxSqlInteger) (hexp : row.expiresAt ≤ maxSqlInteger) :
    isPending mailbox now row = true ↔ row.mailboxKey = mailbox ∧ now < row.expiresAt := by
  rw [isPending, Bool.and_eq_true, decide_eq_true_eq, decide_eq_true_eq,
    toInt64_lt_iff hnow hexp]

theorem timestampNow_le {clock : Int64} {now : UInt64} (h : timestampNow clock = some now) :
    now ≤ maxSqlInteger := by
  unfold timestampNow at h
  split at h
  · rename_i hpos
    have hmax : clock.toUInt64 ≤ Int64.maxValue.toUInt64 :=
      Int64.toUInt64_le hpos (Int64.le_maxValue clock)
    rw [← Option.some.inj h]
    exact hmax
  · cases h

/-- Adding the longest lifetime to a time of the clock does not overflow. -/
theorem toNat_add_maxTtl {now : UInt64} (h : now ≤ maxSqlInteger) :
    (now + deadDropMaxTtlSecs).toNat = now.toNat + deadDropMaxTtlSecs.toNat := by
  have hlt := le_maxSqlInteger_iff.mp h
  have hmax : deadDropMaxTtlSecs.toNat = 1209600 := rfl
  rw [UInt64.toNat_add]
  omega

end Messaging

/-! ## Runs -/

/-- A deposit: the row it offers, and the time it is made at. -/
structure Deposited (W : Wire) where
  row : DeadDropRow W
  insertedAt : UInt64

/-- The database, and what was deposited in and removed from its dead drops. -/
structure MailboxHistory (W : Wire) where
  db : MetadataDb W
  log : List (KeyEvent W.Digest (Deposited W))

/-- A call of `DeadDropService`. -/
inductive DeadDropCall (W : Wire) where
  | deposit (recipient : IdentityKey) (sealed : W.Sealed)
  | depositRaw (mailbox messageId : W.Digest) (sealedData : W.Bytes)
      (depositedAt expiresAt : UInt64)
  | checkMailbox (ours : IdentityKey)
  | mailboxCount (pubkey : IdentityKey)
  | acknowledge (messageId : W.Digest)
  | gc

namespace MailboxHistory

open GuardedRun Messaging KeyHistory

variable {W : Wire} {toVec : W.Sealed → Except String W.Bytes}

/-- A call of `deposit` at time `now`, and the deposit that goes through. -/
def applyDeposit (toVec : W.Sealed → Except String W.Bytes) (s : MailboxHistory W)
    (recipient : IdentityKey) (sealed : W.Sealed) (now : UInt64) : MailboxHistory W :=
  match toVec sealed, deposit toVec s.db recipient sealed now with
  | .ok sealedData, .ok (id, db) =>
    ⟨db, s.log ++ [.put id
      ⟨⟨mailboxKey recipient, sealedData, now, now + deadDropMaxTtlSecs⟩, now⟩]⟩
  | _, _ => s

/-- A call of `deposit_raw` at time `now`, and the deposit that goes through. -/
def applyDepositRaw (s : MailboxHistory W) (mailbox messageId : W.Digest) (sealedData : W.Bytes)
    (depositedAt expiresAt now : UInt64) : MailboxHistory W :=
  match depositRaw s.db mailbox messageId sealedData depositedAt expiresAt now with
  | .ok db =>
    ⟨db, s.log ++ [.put messageId
      ⟨⟨mailbox, sealedData, depositedAt, min expiresAt (now + deadDropMaxTtlSecs)⟩, now⟩]⟩
  | .error _ => s

/-- A call of `acknowledge`. -/
def applyAcknowledge (s : MailboxHistory W) (messageId : W.Digest) : MailboxHistory W :=
  match acknowledge s.db messageId with
  | .ok db => ⟨db, s.log ++ [.drop messageId]⟩
  | .error _ => s

/-- A call of `gc` at time `now`: the rows that are gone after it were collected. -/
def applyGc (s : MailboxHistory W) (now : UInt64) : MailboxHistory W :=
  ⟨gc s.db now, s.log ++ (removed s.db.deadDrops (gc s.db now).deadDrops).map .drop⟩

/-- A call, with the clock at which it is made.  A call that panics leaves the state. -/
def step (toVec : W.Sealed → Except String W.Bytes) (s : MailboxHistory W) :
    DeadDropCall W × Int64 → MailboxHistory W
  | (.deposit recipient sealed, clock) =>
    (timestampNow clock).elim s (applyDeposit toVec s recipient sealed)
  | (.depositRaw mailbox messageId sealedData depositedAt expiresAt, clock) =>
    (timestampNow clock).elim s
      (applyDepositRaw s mailbox messageId sealedData depositedAt expiresAt)
  | (.acknowledge messageId, _) => applyAcknowledge s messageId
  | (.gc, clock) => (timestampNow clock).elim s (applyGc s)
  -- The two reads answer from the state and do not change it.
  | (.checkMailbox _, _) => s
  | (.mailboxCount _, _) => s

/-- A database without rows. -/
def start : MailboxHistory W := ⟨.empty, []⟩

/-! ## The invariant -/

/-- A deposit holds times that SQLite stores, and expires in time. -/
structure Deposited.Bounded (d : Deposited W) : Prop where
  depositedAt : d.row.depositedAt ≤ maxSqlInteger
  expiresAt : d.row.expiresAt ≤ maxSqlInteger
  lifetime : d.row.expiresAt.toNat ≤ d.insertedAt.toNat + deadDropMaxTtlSecs.toNat

/-- The table is what its history says, and each deposit of it is bounded. -/
structure Tracked (s : MailboxHistory W) : Prop where
  mirrors : Mirrors Deposited.row s.db.deadDrops s.log
  bounded : ∀ id d, .put id d ∈ s.log → Deposited.Bounded d

theorem tracked_start : Tracked (start : MailboxHistory W) :=
  ⟨mirrors_empty _, fun _ _ h => absurd h List.not_mem_nil⟩

/-- A deposit that goes through keeps the invariant. -/
theorem Tracked.put {s : MailboxHistory W} (hs : Tracked s) {db : MetadataDb W} {id : W.Digest}
    {d : Deposited W} (hd : Deposited.Bounded d)
    (hdb : db.deadDrops = s.db.deadDrops.insertOrIgnore id d.row) :
    Tracked ⟨db, s.log ++ [.put id d]⟩ := by
  refine ⟨?_, fun id' d' hmem => ?_⟩
  · show Mirrors Deposited.row db.deadDrops _
    rw [hdb]
    exact hs.mirrors.insertOrIgnore id d
  · rcases List.mem_append.mp hmem with hmem | hmem
    · exact hs.bounded id' d' hmem
    · cases List.mem_singleton.mp hmem
      exact hd

/-- Removing rows keeps the invariant. -/
theorem Tracked.drops {s : MailboxHistory W} (hs : Tracked s) {db : MetadataDb W}
    (ids : List W.Digest) (hdb : Mirrors Deposited.row db.deadDrops (s.log ++ ids.map .drop)) :
    Tracked ⟨db, s.log ++ ids.map .drop⟩ := by
  refine ⟨hdb, fun id d hmem => ?_⟩
  rcases List.mem_append.mp hmem with hmem | hmem
  · exact hs.bounded id d hmem
  · obtain ⟨_, -, hdrop⟩ := List.mem_map.mp hmem
    cases hdrop

theorem tracked_applyDeposit {s : MailboxHistory W} (hs : Tracked s) (recipient : IdentityKey)
    (sealed : W.Sealed) {now : UInt64} (hnow : now ≤ maxSqlInteger) :
    Tracked (applyDeposit toVec s recipient sealed now) := by
  unfold applyDeposit
  split
  · rename_i sealedData id db hvec hdep
    obtain ⟨sealedData', hvec', hsql, rfl, rfl⟩ := deposit_eq_ok.mp hdep
    cases hvec.symm.trans hvec'
    -- What SQLite binds is at most its largest integer.
    rw [not_or, UInt64.not_lt, UInt64.not_lt] at hsql
    exact hs.put ⟨hsql.1, hsql.2, (toNat_add_maxTtl hnow).le⟩ rfl
  · exact hs

theorem tracked_applyDepositRaw {s : MailboxHistory W} (hs : Tracked s)
    (mailbox messageId : W.Digest) (sealedData : W.Bytes) (depositedAt expiresAt : UInt64)
    {now : UInt64} (hnow : now ≤ maxSqlInteger) :
    Tracked (applyDepositRaw s mailbox messageId sealedData depositedAt expiresAt now) := by
  unfold applyDepositRaw
  split
  · rename_i db hdep
    obtain ⟨-, hsql, rfl⟩ := depositRaw_eq_ok.mp hdep
    rw [not_or, UInt64.not_lt, UInt64.not_lt] at hsql
    have hlife := MessageLifetime.toNat_min_le expiresAt (now + deadDropMaxTtlSecs)
    rw [toNat_add_maxTtl hnow] at hlife
    exact hs.put ⟨hsql.1, hsql.2, hlife⟩ rfl
  · exact hs

theorem tracked_applyAcknowledge {s : MailboxHistory W} (hs : Tracked s) (messageId : W.Digest) :
    Tracked (applyAcknowledge s messageId) := by
  unfold applyAcknowledge
  split
  · rename_i db hack
    obtain ⟨-, rfl⟩ := acknowledge_eq_ok.mp hack
    exact hs.drops [messageId] (hs.mirrors.deleteKey messageId)
  · exact hs

theorem tracked_applyGc {s : MailboxHistory W} (hs : Tracked s) (now : UInt64) :
    Tracked (applyGc s now) := by
  refine hs.drops _ (hs.mirrors.remove (fun id row hrow => ?_))
  rw [gc, SqlTable.get?_deleteWhere, Option.filter_eq_some_iff] at hrow
  exact hrow.1

/-- A call that reads the clock keeps the invariant if it does so at each time of the clock. -/
theorem Tracked.elim {s : MailboxHistory W} (hs : Tracked s) {f : UInt64 → MailboxHistory W}
    (hf : ∀ now, now ≤ maxSqlInteger → Tracked (f now)) (clock : Int64) :
    Tracked ((timestampNow clock).elim s f) := by
  cases hnow : timestampNow clock with
  | none => exact hs
  | some now => exact hf now (timestampNow_le hnow)

theorem tracked_step {s : MailboxHistory W} (hs : Tracked s) (call : DeadDropCall W × Int64) :
    Tracked (step toVec s call) := by
  obtain ⟨call, clock⟩ := call
  cases call with
  | deposit recipient sealed =>
    exact hs.elim (fun _ hnow => tracked_applyDeposit hs recipient sealed hnow) clock
  | depositRaw mailbox messageId sealedData depositedAt expiresAt =>
    exact hs.elim (fun _ hnow => tracked_applyDepositRaw hs mailbox messageId sealedData
      depositedAt expiresAt hnow) clock
  | acknowledge messageId => exact tracked_applyAcknowledge hs messageId
  | gc => exact hs.elim (fun now _ => tracked_applyGc hs now) clock
  | checkMailbox ours => exact hs
  | mailboxCount pubkey => exact hs

theorem tracked_run (toVec : W.Sealed → Except String W.Bytes)
    (calls : List (DeadDropCall W × Int64)) : Tracked (run (step toVec) start calls) :=
  have hstep : ∀ (s : MailboxHistory W) call, Tracked s → Tracked (step toVec s call) :=
    fun _ call hs => tracked_step hs call
  run_invariant_of_step hstep tracked_start calls

/-! ## What the queries answer -/

theorem Tracked.bounded_of_isFirst {s : MailboxHistory W} (hs : Tracked s) {id : W.Digest}
    {d : Deposited W} (hd : IsFirst s.log id d) : Deposited.Bounded d := by
  obtain ⟨before, after, hlog, -, -⟩ := hd
  refine hs.bounded id d ?_
  rw [hlog]
  exact List.mem_append_right _ List.mem_cons_self

/-- The message that a deposit leaves in its mailbox. -/
def message (id : W.Digest) (d : Deposited W) : PendingMessage W :=
  ⟨id, d.row.sealedData, d.row.depositedAt, d.row.expiresAt⟩

theorem Tracked.bounded_of_mem {s : MailboxHistory W} (hs : Tracked s) {id : W.Digest}
    {row : DeadDropRow W} (h : (id, row) ∈ s.db.deadDrops.rows) :
    row.depositedAt ≤ maxSqlInteger ∧ row.expiresAt ≤ maxSqlInteger := by
  obtain ⟨d, hd, rfl⟩ := hs.mirrors.mem_rows_iff.mp h
  have hbounded := hs.bounded_of_isFirst hd
  exact ⟨hbounded.depositedAt, hbounded.expiresAt⟩

/-- What a mailbox holds: of each id the first deposit since it was last removed, if it was made
for this mailbox and has not expired. -/
theorem Tracked.mem_pending_iff {s : MailboxHistory W} (hs : Tracked s) {now : UInt64}
    (hnow : now ≤ maxSqlInteger) {mailbox : W.Digest} {m : PendingMessage W} :
    m ∈ pending s.db mailbox now ↔
      ∃ d, IsFirst s.log m.id d ∧ d.row.mailboxKey = mailbox ∧ now < d.row.expiresAt ∧
        m = message m.id d := by
  rw [pending, List.mem_map]
  constructor
  · rintro ⟨⟨id, row⟩, hmem, rfl⟩
    -- Sorting loses nothing, so the message comes from a row that satisfies the clause.
    obtain ⟨hrow, hp⟩ := List.mem_filter.mp (List.mem_mergeSort.mp hmem)
    have hlive := (isPending_iff hnow (hs.bounded_of_mem hrow).2).mp hp
    obtain ⟨d, hd, rfl⟩ := hs.mirrors.mem_rows_iff.mp hrow
    exact ⟨d, hd, hlive.1, hlive.2, rfl⟩
  · rintro ⟨d, hd, hbox, hlive, hm⟩
    have hrow : (m.id, d.row) ∈ s.db.deadDrops.rows := hs.mirrors.mem_rows_iff.mpr ⟨d, hd, rfl⟩
    have hp := (isPending_iff hnow (hs.bounded_of_mem hrow).2).mpr ⟨hbox, hlive⟩
    exact ⟨(m.id, d.row), List.mem_mergeSort.mpr (List.mem_filter.mpr ⟨hrow, hp⟩), hm.symm⟩

/-- No message is returned twice. -/
theorem nodup_pending (db : MetadataDb W) (mailbox : W.Digest) (now : UInt64) :
    ((pending db mailbox now).map PendingMessage.id).Nodup := by
  rw [pending, List.map_map]
  refine (((List.mergeSort_perm _ _).map _).nodup_iff).mpr ?_
  exact (List.filter_sublist.map Prod.fst).nodup db.deadDrops.nodup

/-- The oldest message comes first. -/
theorem Tracked.pairwise_pending {s : MailboxHistory W} (hs : Tracked s) (mailbox : W.Digest)
    (now : UInt64) :
    (pending s.db mailbox now).Pairwise (fun m m' => m.depositedAt ≤ m'.depositedAt) := by
  rw [pending, List.pairwise_map]
  have htrans : ∀ a b c : W.Digest × DeadDropRow W,
      decide (a.2.depositedAt.toInt64 ≤ b.2.depositedAt.toInt64) = true →
      decide (b.2.depositedAt.toInt64 ≤ c.2.depositedAt.toInt64) = true →
      decide (a.2.depositedAt.toInt64 ≤ c.2.depositedAt.toInt64) = true := by
    intro a b c hab hbc
    rw [decide_eq_true_eq] at hab hbc ⊢
    exact Int64.le_trans hab hbc
  have htotal : ∀ a b : W.Digest × DeadDropRow W,
      (decide (a.2.depositedAt.toInt64 ≤ b.2.depositedAt.toInt64) ||
        decide (b.2.depositedAt.toInt64 ≤ a.2.depositedAt.toInt64)) = true := by
    intro a b
    rw [Bool.or_eq_true, decide_eq_true_eq, decide_eq_true_eq]
    exact Int64.le_total _ _
  have hsorted := List.pairwise_mergeSort htrans htotal
    (s.db.deadDrops.selectWhere (fun _ row => isPending mailbox now row))
  refine hsorted.imp_of_mem (fun {a b} ha hb hab => ?_)
  have hrow : ∀ r ∈ s.db.deadDrops.selectWhere (fun _ row => isPending mailbox now row),
      r.2.depositedAt ≤ maxSqlInteger :=
    fun r hr => (hs.bounded_of_mem (List.mem_filter.mp hr).1).1
  exact (toInt64_le_iff (hrow a (List.mem_mergeSort.mp ha)) (hrow b (List.mem_mergeSort.mp hb))).mp
    (of_decide_eq_true hab)

/-- The count is the length of the list. -/
theorem mailboxCount_eq_length (db : MetadataDb W) (ours : IdentityKey) (now : UInt64) :
    mailboxCount db ours now = (checkMailbox db ours now).length := by
  rw [checkMailbox_eq_pending, pending, List.length_map, List.length_mergeSort, mailboxCount]

/-- The garbage collection keeps a row exactly if some mailbox holds it. -/
theorem Tracked.mem_gc_iff {s : MailboxHistory W} (hs : Tracked s) {now : UInt64}
    (hnow : now ≤ maxSqlInteger) {id : W.Digest} {row : DeadDropRow W}
    (hrow : (id, row) ∈ s.db.deadDrops.rows) :
    (id, row) ∈ (gc s.db now).deadDrops.rows ↔
      ∃ mailbox, ∃ m ∈ pending s.db mailbox now, m.id = id := by
  have hexp := (hs.bounded_of_mem hrow).2
  -- `expires_at <= now` and `expires_at > now` divide the rows between `gc` and the mailboxes.
  have hgc : (id, row) ∈ (gc s.db now).deadDrops.rows ↔ now < row.expiresAt := by
    rw [gc, SqlTable.deleteWhere, List.mem_filter, Bool.not_eq_true', decide_eq_false_iff_not,
      toInt64_le_iff hexp hnow, UInt64.not_le]
    exact ⟨fun h => h.2, fun h => ⟨hrow, h⟩⟩
  rw [hgc]
  obtain ⟨d, hd, rfl⟩ := hs.mirrors.mem_rows_iff.mp hrow
  constructor
  · intro hlive
    exact ⟨d.row.mailboxKey, message id d, (hs.mem_pending_iff hnow).mpr ⟨d, hd, rfl, hlive, rfl⟩,
      rfl⟩
  · rintro ⟨mailbox, m, hm, rfl⟩
    obtain ⟨d', hd', -, hlive, -⟩ := (hs.mem_pending_iff hnow).mp hm
    have hrow' : (m.id, d'.row) ∈ s.db.deadDrops.rows :=
      hs.mirrors.mem_rows_iff.mpr ⟨d', hd', rfl⟩
    rw [SqlTable.mem_rows_iff] at hrow hrow'
    rw [Option.some.inj (hrow.symm.trans hrow')]
    exact hlive

/-! ## Consistency -/

/-- What holds of the mailboxes in a state. -/
structure Consistent (s : MailboxHistory W) : Prop where
  /-- Each row is that of the deposit that inserted it, and expires in time after it. -/
  lifetime : ∀ id row, (id, row) ∈ s.db.deadDrops.rows →
    ∃ d, IsFirst s.log id d ∧ d.row = row ∧
      row.expiresAt.toNat ≤ d.insertedAt.toNat + deadDropMaxTtlSecs.toNat
  /-- `check_mailbox` is the query for the mailbox of the key, -/
  checkMailbox : ∀ ours now, Messaging.checkMailbox s.db ours now
    = pending s.db (mailboxKey ours) now
  /-- which returns the unexpired messages whose id was first deposited for the mailbox, -/
  pending : ∀ clock now, timestampNow clock = some now → ∀ mailbox m,
    m ∈ Messaging.pending s.db mailbox now ↔
      ∃ d, IsFirst s.log m.id d ∧ d.row.mailboxKey = mailbox ∧ now < d.row.expiresAt ∧
        m = message m.id d
  /-- each once, -/
  once : ∀ mailbox now, ((Messaging.pending s.db mailbox now).map PendingMessage.id).Nodup
  /-- and the oldest first. -/
  oldestFirst : ∀ mailbox now,
    (Messaging.pending s.db mailbox now).Pairwise (fun m m' => m.depositedAt ≤ m'.depositedAt)
  /-- `mailbox_count` is the number of these messages. -/
  count : ∀ pubkey now, Messaging.mailboxCount s.db pubkey now
    = (Messaging.checkMailbox s.db pubkey now).length
  /-- `gc` changes nothing but `dead_drops`, and removes exactly the rows that no mailbox holds. -/
  gc : ∀ clock now, timestampNow clock = some now →
    SameButDrops s.db (Messaging.gc s.db now) ∧
      (Messaging.gc s.db now).deadDrops.rows.Sublist s.db.deadDrops.rows ∧
      ∀ id row, (id, row) ∈ s.db.deadDrops.rows →
        ((id, row) ∉ (Messaging.gc s.db now).deadDrops.rows ↔
          ∀ mailbox, ∀ m ∈ Messaging.pending s.db mailbox now, m.id ≠ id)

/-- **Mailbox consistency.**  After every run, at every time. -/
theorem mailbox_consistency (toVec : W.Sealed → Except String W.Bytes)
    (calls : List (DeadDropCall W × Int64)) : Consistent (run (step toVec) start calls) := by
  have hs := tracked_run toVec calls
  constructor
  case lifetime =>
    intro id row hrow
    obtain ⟨d, hd, rfl⟩ := hs.mirrors.mem_rows_iff.mp hrow
    exact ⟨d, hd, rfl, (hs.bounded_of_isFirst hd).lifetime⟩
  case checkMailbox => exact fun ours now => checkMailbox_eq_pending _ ours now
  case pending => exact fun clock now hnow mailbox m => hs.mem_pending_iff (timestampNow_le hnow)
  case once => exact fun mailbox now => nodup_pending _ mailbox now
  case oldestFirst => exact fun mailbox now => hs.pairwise_pending mailbox now
  case count => exact fun pubkey now => mailboxCount_eq_length _ pubkey now
  case gc =>
    intro clock now hnow
    refine ⟨rfl, List.filter_sublist, fun id row hrow => ?_⟩
    rw [hs.mem_gc_iff (timestampNow_le hnow) hrow]
    push Not
    rfl

end MailboxHistory
