/-
# Sessions in the columns of `ratchet_sessions` (`ephemera-message/src/session.rs`)

`save_session` writes twelve parameters into thirteen columns, with a second list of columns
for a row that is already there; `load_session` reads eight columns back by position, checks
the lengths of the blobs and rebuilds the key pair from its secret.

A loaded state is the saved one (`loadSession_saveSession`), so a ratchet that is saved and
loaded between its operations does what one in memory does (`reload_transparent`).  The table
of `Ephemera.Session` is what the columns hold (`refines_saveSession`).
-/
import Ephemera.Session

namespace SessionPersistence

open Ratchet StateExcept RatchetAgreement Session

/-! ## Keys as bytes -/

/-- `[u8; 32]`. -/
abbrev Bytes32 := Vector UInt8 32

/-- The primitives on bytes: `X25519SecretKey`, `X25519PublicKey` and the keys of the chains
are all `[u8; 32]`. -/
structure BytePrimitives where
  Nonce : Type
  Sealed : Type
  publicOf : Bytes32 → Bytes32
  diffieHellman : Bytes32 → Bytes32 → Bytes32
  hkdfSha256 : List Bytes32 → String → Bytes32
  sealBytes : Bytes32 → Nonce → List UInt8 → Except String Sealed
  openBytes : Bytes32 → Sealed → Except String (List UInt8)

/-- The primitives of the ratchet. -/
abbrev BytePrimitives.suite (P : BytePrimitives) : CryptoSuite where
  Key := Bytes32
  Secret := Bytes32
  Public := Bytes32
  Nonce := P.Nonce
  Sealed := P.Sealed
  decPublic := inferInstance
  zeroKey := Vector.replicate 32 0
  publicOf := P.publicOf
  diffieHellman := P.diffieHellman
  hkdfSha256 := P.hkdfSha256
  sealBytes := P.sealBytes
  openBytes := P.openBytes

variable {P : BytePrimitives}

/-- The counters are `u32`. -/
structure InU32 (state : RatchetState P.suite) : Prop where
  sendCount : state.sendCount < 2 ^ 32
  recvCount : state.recvCount < 2 ^ 32
  previousSendCount : state.previousSendCount < 2 ^ 32

/-- A `RatchetState` as the source has it. -/
abbrev State (P : BytePrimitives) := { state : RatchetState P.suite // InU32 state }

/-! ## The table -/

/-- A value of a column. -/
inductive SqlValue where
  | null
  | integer (n : ℤ)
  | text (s : String)
  | blob (bytes : List UInt8)
  deriving DecidableEq

/-- The columns of `ratchet_sessions`. -/
inductive Column where
  | conversationId
  | peerPubkey
  | rootKey
  | sendChainKey
  | recvChainKey
  | sendRatchetSecret
  | sendRatchetPubkey
  | recvRatchetPubkey
  | sendCount
  | recvCount
  | prevSendCount
  | createdAt
  | updatedAt
  deriving DecidableEq

/-- A row. -/
abbrev Row := Column → SqlValue

/-- The table, keyed by `conversation_id`. -/
abbrev Table := SqlTable String Row

/-- The columns declared `NOT NULL` (all but one). -/
def notNull : List Column :=
  [.conversationId, .peerPubkey, .rootKey, .sendChainKey, .recvChainKey, .sendRatchetSecret,
    .sendRatchetPubkey, .sendCount, .recvCount, .prevSendCount, .createdAt, .updatedAt]

/-- The values of columns that an `INSERT` does not name. -/
def defaults : Row
  | .sendCount => .integer 0
  | .recvCount => .integer 0
  | .prevSendCount => .integer 0
  | _ => .null

/-- What `load_session` returns instead of a state. -/
inductive StoreError where
  | database
  | message (e : MessageError)
  deriving DecidableEq

/-! ## Saving -/

/-- The columns of the `INSERT` with the numbers of their parameters. -/
def insertColumns : List (Column × ℕ) :=
  [(.conversationId, 1), (.peerPubkey, 2), (.rootKey, 3), (.sendChainKey, 4), (.recvChainKey, 5),
    (.sendRatchetSecret, 6), (.sendRatchetPubkey, 7), (.recvRatchetPubkey, 8), (.sendCount, 9),
    (.recvCount, 10), (.prevSendCount, 11), (.createdAt, 12), (.updatedAt, 12)]

/-- The columns of the `DO UPDATE SET` with the numbers of their parameters. -/
def conflictColumns : List (Column × ℕ) :=
  [(.rootKey, 3), (.sendChainKey, 4), (.recvChainKey, 5), (.sendRatchetSecret, 6),
    (.sendRatchetPubkey, 7), (.recvRatchetPubkey, 8), (.sendCount, 9), (.recvCount, 10),
    (.prevSendCount, 11), (.updatedAt, 12)]

/-- A `[u8; 32]` as a blob. -/
def blob32 (bytes : Bytes32) : SqlValue := .blob bytes.toList

/-- The parameters of `save_session`. -/
def saveParams (conversationId : String) (peerPubkey : List UInt8) (now : ℤ)
    (state : RatchetState P.suite) : List SqlValue :=
  [.text conversationId,
    .blob peerPubkey,
    blob32 state.rootKey,
    blob32 state.sendChainKey,
    blob32 state.recvChainKey,
    blob32 state.sendRatchetKey.secret,
    blob32 state.sendRatchetKey.publicKey,
    (state.recvRatchetPubkey.map blob32).getD .null,
    .integer state.sendCount,
    .integer state.recvCount,
    .integer state.previousSendCount,
    .integer now]

/-- Set columns to parameters, which count from 1. -/
def assign (columns : List (Column × ℕ)) (params : List SqlValue) (row : Row) : Row :=
  columns.foldl (fun row c => Function.update row c.1 (params.getD (c.2 - 1) .null)) row

/-- `SessionManager::save_session`, at time `now`. -/
def saveSession (db : Table) (conversationId : String) (peerPubkey : List UInt8) (now : ℤ)
    (state : RatchetState P.suite) : Except StoreError Table :=
  let params := saveParams conversationId peerPubkey now state
  let row := assign insertColumns params defaults
  -- the values of the update are among those of the inserted row
  if notNull.any (fun c => row c = .null) then .error .database
  else .ok (db.upsert conversationId row (assign conflictColumns params))

/-! ## Loading -/

/-- The columns of the `SELECT`. -/
def selectColumns : List Column :=
  [.rootKey, .sendChainKey, .recvChainKey, .sendRatchetSecret, .recvRatchetPubkey, .sendCount,
    .recvCount, .prevSendCount]

/-- `row.get(i)` as `Vec<u8>`. -/
def getBlob (row : Row) (i : ℕ) : Except StoreError (List UInt8) :=
  match selectColumns[i]?.map row with
  | some (.blob bytes) => .ok bytes
  | _ => .error .database

/-- `row.get(i)` as `Option<Vec<u8>>`. -/
def getOptionalBlob (row : Row) (i : ℕ) : Except StoreError (Option (List UInt8)) :=
  match selectColumns[i]?.map row with
  | some (.blob bytes) => .ok (some bytes)
  | some .null => .ok none
  | _ => .error .database

/-- `row.get(i)` as `u32`. -/
def getU32 (row : Row) (i : ℕ) : Except StoreError ℕ :=
  match selectColumns[i]?.map row with
  | some (.integer n) => if 0 ≤ n ∧ n < 2 ^ 32 then .ok n.toNat else .error .database
  | _ => .error .database

/-- `to_array32`. -/
def toArray32 (bytes : List UInt8) : Except StoreError Bytes32 :=
  if h : bytes.length = 32 then .ok ⟨bytes.toArray, h⟩
  else .error (.message (.ratchetError ("expected 32 bytes, got " ++ toString bytes.length)))

/-- `RatchetState::from_persisted`. -/
def fromPersisted (rootKey sendChainKey recvChainKey sendRatchetSecret : Bytes32)
    (recvRatchetPubkey : Option Bytes32) (sendCount recvCount previousSendCount : ℕ) :
    RatchetState P.suite where
  rootKey := rootKey
  sendChainKey := sendChainKey
  recvChainKey := recvChainKey
  sendRatchetKey := keyPair sendRatchetSecret
  recvRatchetPubkey := recvRatchetPubkey
  sendCount := sendCount
  recvCount := recvCount
  previousSendCount := previousSendCount

/-- `SessionManager::load_session`, from the row it finds. -/
def fromRow (row : Row) : Except StoreError (RatchetState P.suite) := do
  let rootKey ← getBlob row 0
  let sendCk ← getBlob row 1
  let recvCk ← getBlob row 2
  let sendSecret ← getBlob row 3
  let recvPub ← getOptionalBlob row 4
  let sc ← getU32 row 5
  let rc ← getU32 row 6
  let ps ← getU32 row 7
  let rk ← toArray32 rootKey
  let sck ← toArray32 sendCk
  let rck ← toArray32 recvCk
  let ss ← toArray32 sendSecret
  let rpk ← match recvPub with
    | some bytes => (toArray32 bytes).map some
    | none => .ok none
  return fromPersisted rk sck rck ss rpk sc rc ps

/-- `SessionManager::load_session`. -/
def loadSession (db : Table) (conversationId : String) :
    Except StoreError (Option (RatchetState P.suite)) :=
  match db.get? conversationId with
  | none => .ok none
  | some row => (fromRow row).map some

/-! ## A state survives the columns -/

/-- The columns that are read hold a state. -/
structure Holds (row : Row) (state : RatchetState P.suite) : Prop where
  rootKey : row .rootKey = blob32 state.rootKey
  sendChainKey : row .sendChainKey = blob32 state.sendChainKey
  recvChainKey : row .recvChainKey = blob32 state.recvChainKey
  sendRatchetSecret : row .sendRatchetSecret = blob32 state.sendRatchetKey.secret
  recvRatchetPubkey : row .recvRatchetPubkey = (state.recvRatchetPubkey.map blob32).getD .null
  sendCount : row .sendCount = .integer state.sendCount
  recvCount : row .recvCount = .integer state.recvCount
  prevSendCount : row .prevSendCount = .integer state.previousSendCount

/-- An inserted row holds the state, whatever the columns held by default. -/
theorem holds_insert (conversationId : String) (peerPubkey : List UInt8) (now : ℤ)
    (state : RatchetState P.suite) (row : Row) :
    Holds (assign insertColumns (saveParams conversationId peerPubkey now state) row) state :=
  ⟨rfl, rfl, rfl, rfl, rfl, rfl, rfl, rfl⟩

/-- A row that was there holds the state after the update. -/
theorem holds_update (conversationId : String) (peerPubkey : List UInt8) (now : ℤ)
    (state : RatchetState P.suite) (row : Row) :
    Holds (assign conflictColumns (saveParams conversationId peerPubkey now state) row) state :=
  ⟨rfl, rfl, rfl, rfl, rfl, rfl, rfl, rfl⟩

/-- No parameter but the optional key is `NULL`. -/
theorem insert_notNull (conversationId : String) (peerPubkey : List UInt8) (now : ℤ)
    (state : RatchetState P.suite) :
    notNull.any (fun c => assign insertColumns
      (saveParams conversationId peerPubkey now state) defaults c = .null) = false := by
  rfl

theorem toArray32_toList (bytes : Bytes32) : toArray32 bytes.toList = .ok bytes := by
  rw [toArray32, dif_pos bytes.length_toList]
  rfl

/-- A counter of 32 bits is read back. -/
theorem getU32_of_lt {row : Row} {i n : ℕ} (h : selectColumns[i]?.map row = some (.integer n))
    (hn : n < 2 ^ 32) : getU32 row i = .ok n := by
  have hrange : (0 : ℤ) ≤ (n : ℤ) ∧ (n : ℤ) < 2 ^ 32 := ⟨Int.natCast_nonneg n, by exact_mod_cast hn⟩
  rw [getU32, h]
  simp only [if_pos hrange, Int.toNat_natCast]

/-- A blob is read back. -/
theorem getBlob_of_blob32 {row : Row} {i : ℕ} {bytes : Bytes32}
    (h : selectColumns[i]?.map row = some (blob32 bytes)) : getBlob row i = .ok bytes.toList := by
  rw [getBlob, h]
  rfl

/-- An optional blob is read back. -/
theorem getOptionalBlob_of_map {row : Row} {i : ℕ} {bytes : Option Bytes32}
    (h : selectColumns[i]?.map row = some ((bytes.map blob32).getD .null)) :
    getOptionalBlob row i = .ok (bytes.map Vector.toList) := by
  rw [getOptionalBlob, h]
  cases bytes <;> rfl

/-- A row that holds a state is read back as this state. -/
theorem fromRow_of_holds {row : Row} {state : RatchetState P.suite} (h : Holds row state)
    (hu : InU32 state) : fromRow row = .ok state := by
  have hroot : getBlob row 0 = .ok state.rootKey.toList :=
    getBlob_of_blob32 (congrArg some h.rootKey)
  have hsend : getBlob row 1 = .ok state.sendChainKey.toList :=
    getBlob_of_blob32 (congrArg some h.sendChainKey)
  have hrecv : getBlob row 2 = .ok state.recvChainKey.toList :=
    getBlob_of_blob32 (congrArg some h.recvChainKey)
  have hsecret : getBlob row 3 = .ok state.sendRatchetKey.secret.toList :=
    getBlob_of_blob32 (congrArg some h.sendRatchetSecret)
  have hpub := getOptionalBlob_of_map (i := 4) (congrArg some h.recvRatchetPubkey)
  have hsc := getU32_of_lt (i := 5) (congrArg some h.sendCount) hu.sendCount
  have hrc := getU32_of_lt (i := 6) (congrArg some h.recvCount) hu.recvCount
  have hps := getU32_of_lt (i := 7) (congrArg some h.prevSendCount) hu.previousSendCount
  obtain ⟨root, sendChain, recvChain, ⟨secret, publicKey, hpublic⟩, recvPub, _, _, _⟩ := state
  subst hpublic
  simp only [fromRow, hroot, hsend, hrecv, hsecret, hpub, hsc, hrc, hps, bind, Except.bind,
    toArray32_toList]
  cases recvPub with
  | none => rfl
  | some bytes =>
    simp only [Option.map_some, toArray32_toList]
    rfl

/-- **A saved session is the one that is loaded**, also over a row that was there; other
conversations are not touched. -/
theorem loadSession_saveSession (db : Table) (conversationId : String) (peerPubkey : List UInt8)
    (now : ℤ) (state : State P) :
    ∃ db', saveSession db conversationId peerPubkey now state.1 = .ok db' ∧
      ∀ id, loadSession db' id
        = if id = conversationId then .ok (some state.1) else loadSession (P := P) db id := by
  refine ⟨_, by rw [saveSession, if_neg (by rw [insert_notNull]; exact Bool.false_ne_true)],
    fun id => ?_⟩
  rw [loadSession, SqlTable.get?_upsert]
  by_cases hid : id = conversationId
  · rw [if_pos hid, if_pos hid]
    cases hrow : db.get? conversationId with
    | none =>
      simp only [Option.map_none, Option.getD_none]
      rw [fromRow_of_holds (holds_insert _ _ _ state.1 _) state.2]
      rfl
    | some row =>
      simp only [Option.map_some, Option.getD_some]
      rw [fromRow_of_holds (holds_update _ _ _ state.1 row) state.2]
      rfl
  · rw [if_neg hid, if_neg hid, loadSession]

/-- The table of `Ephemera.Session` holds what the columns hold. -/
def Refines (db : Table) (abstract : SessionDb P.suite) : Prop :=
  ∀ id, loadSession db id = .ok (Session.loadSession abstract id)

/-- Saving keeps the two tables together. -/
theorem refines_saveSession {db : Table} {abstract : SessionDb P.suite} (h : Refines db abstract)
    (conversationId : String) (peerPubkey : IdentityKey) (now : ℤ) (state : State P) :
    ∃ db', saveSession db conversationId peerPubkey now state.1 = .ok db' ∧
      Refines db' (Session.saveSession abstract conversationId peerPubkey state.1) := by
  obtain ⟨db', hsave, hload⟩ :=
    loadSession_saveSession db conversationId peerPubkey now state
  refine ⟨db', hsave, fun id => ?_⟩
  rw [hload, Session.loadSession_saveSession]
  by_cases hid : id = conversationId
  · rw [if_pos hid, if_pos hid]
  · rw [if_neg hid, if_neg hid, h id]

/-! ## Runs with and without the table -/

/-- An operation of a ratchet with what it draws. -/
inductive Op (P : BytePrimitives) where
  | encrypt (nonce : P.Nonce) (plaintext : List UInt8)
  | decrypt (header : MessageHeader P.suite) (ciphertext : P.Sealed)
      (fresh : X25519KeyPair P.suite)

/-- What an operation returns. -/
inductive Output (P : BytePrimitives) where
  | encrypted (r : Except MessageError (MessageHeader P.suite × P.Sealed))
  | decrypted (r : Except MessageError (List UInt8))

/-- One operation on a state. -/
def perform (state : RatchetState P.suite) : Op P → Output P × RatchetState P.suite
  | .encrypt nonce plaintext =>
    let (r, state') := exec (encryptMessage (S := P.suite) nonce plaintext) state
    (.encrypted r, state')
  | .decrypt header ciphertext fresh =>
    let (r, state') := exec (decryptMessage header ciphertext fresh) state
    (.decrypted r, state')

/-- The operations of a run on a state in memory. -/
def runInMemory (state : RatchetState P.suite) :
    List (Op P) → List (Output P) × RatchetState P.suite
  | [] => ([], state)
  | op :: ops =>
    let (output, state') := perform state op
    let (outputs, last) := runInMemory state' ops
    (output :: outputs, last)

/-- An operation, or a save at time `now` followed by a load. -/
inductive Event (P : BytePrimitives) where
  | op (op : Op P)
  | reload (now : ℤ)

/-- The operations among the events. -/
def operations : List (Event P) → List (Op P)
  | [] => []
  | .op op :: es => op :: operations es
  | .reload _ :: es => operations es

/-- The same run with reloads: the state goes through the table wherever the run says so. -/
def runReloading (conversationId : String) (peerPubkey : List UInt8) (db : Table)
    (state : RatchetState P.suite) :
    List (Event P) → Except StoreError ((List (Output P) × RatchetState P.suite) × Table)
  | [] => .ok (([], state), db)
  | .op op :: es => do
    let (output, state') := perform state op
    let ((outputs, last), db') ← runReloading conversationId peerPubkey db state' es
    return ((output :: outputs, last), db')
  | .reload now :: es => do
    let db' ← saveSession db conversationId peerPubkey now state
    match ← loadSession (P := P) db' conversationId with
    | some loaded => runReloading conversationId peerPubkey db' loaded es
    | none => .error .database

/-- The counters stay in 32 bits. -/
theorem inU32_perform {state : RatchetState P.suite} (h : InU32 state) (op : Op P) :
    InU32 (perform state op).2 := by
  cases op with
  | encrypt nonce plaintext =>
    change InU32 (exec (encryptMessage (S := P.suite) nonce plaintext) state).2
    rw [encryptMessage_exec]
    split
    · exact ⟨h.sendCount, h.recvCount, h.previousSendCount⟩
    · exact ⟨Nat.mod_lt _ (by decide), h.recvCount, h.previousSendCount⟩
  | decrypt header ciphertext fresh =>
    change InU32 (exec (decryptMessage header ciphertext fresh) state).2
    rw [decryptMessage_exec]
    by_cases hkey : state.recvRatchetPubkey = some header.ratchetKey
    · rw [atLoop_of_eq hkey]
      exact ⟨h.sendCount, Nat.mod_lt _ (by decide), h.previousSendCount⟩
    · rw [atLoop_of_ne hkey]
      exact ⟨Nat.two_pow_pos 32, Nat.mod_lt _ (by decide), h.sendCount⟩

/-- A run with reloads returns what the run in memory returns. -/
theorem runReloading_eq (conversationId : String) (peerPubkey : List UInt8) (db : Table)
    (state : State P) (es : List (Event P)) :
    ∃ db', runReloading conversationId peerPubkey db state.1 es =
      .ok (runInMemory state.1 (operations es), db') := by
  induction es generalizing db state with
  | nil => exact ⟨db, rfl⟩
  | cons e es ih =>
    cases e with
    | op op =>
      obtain ⟨db', hrun⟩ := ih db ⟨(perform state.1 op).2, inU32_perform state.2 op⟩
      refine ⟨db', ?_⟩
      rw [runReloading]
      simp only [hrun, bind, Except.bind]
      rfl
    | reload now =>
      obtain ⟨db₁, hsave, hload⟩ :=
        loadSession_saveSession db conversationId peerPubkey now state
      obtain ⟨db', hrun⟩ := ih db₁ state
      refine ⟨db', ?_⟩
      have hloaded : loadSession (P := P) db₁ conversationId = .ok (some state.1) := by
        rw [hload, if_pos rfl]
      rw [runReloading]
      simp only [hsave, hloaded, bind, Except.bind]
      exact hrun

/-- **Persistence is transparent.**  Whatever the table holds, saving a state succeeds and
loading it returns the state; and a ratchet that goes through the table between any of its
operations returns what one in memory does, and ends in the same state. -/
theorem reload_transparent (conversationId : String) (peerPubkey : List UInt8) (db : Table)
    (now : ℤ) (state : State P) :
    (∃ db', saveSession db conversationId peerPubkey now state.1 = .ok db' ∧
        loadSession db' conversationId = .ok (some state.1)) ∧
      ∀ es : List (Event P), ∃ db', runReloading conversationId peerPubkey db state.1 es =
        .ok (runInMemory state.1 (operations es), db') := by
  refine ⟨?_, runReloading_eq conversationId peerPubkey db state⟩
  obtain ⟨db', hsave, hload⟩ := loadSession_saveSession db conversationId peerPubkey now state
  exact ⟨db', hsave, by rw [hload, if_pos rfl]⟩

end SessionPersistence
