/-
# A node and everything that happens to it

The calls of its API, the payloads its ingest loop takes from gossip, the polls of its
DHT storage, the records others put there, and the functions other crates call on its
database.  `apply` performs one operation; a run of a node is a list of them.

Each operation has one lemma about `connections`, so that a statement about runs never
looks into the operations again.
-/
import Ephemera.DirectMessage
import Ephemera.GuardedRun

/-- An operation on a node. -/
inductive NodeOp {W : Wire} (C : Cipher W) where
  | connect (env : CallEnv W) (target msg : String)
  | accept (env : CallEnv W) (source : String)
  | reject (env : CallEnv W) (source : String)
  | cancelRequest (env : CallEnv W) (target : String)
  | resendRequest (env : CallEnv W) (target msg : String)
  | disconnect (env : CallEnv W) (target : String)
  | unfollow (env : CallEnv W) (target : String)
  | follow (env : CallEnv W) (target : String)
  | block (env : CallEnv W) (target : String)
  | unblock (env : CallEnv W) (target : String)
  | send (env : CallEnv W) (target body : String) (ttl : Option UInt64) (entropy : C.Entropy)
  | ingest (ours : Option IdentityKey) (payload : W.Bytes) (now : UInt64)
  | putRecord (record : DhtRecord W) (now : UInt64)
  | retrieveDhtDeadDrops (ours : IdentityKey) (now : UInt64)
  | receiveConnectionRequest (receiver sender : IdentityKey) (message : Option String)
      (now : UInt64)
  | receiveMessage (envelope : W.Sealed) (ours : IdentityKey) (secret : C.X25519Secret)
      (now : UInt64)
  | acceptRequest (ours sender : IdentityKey)
  | rejectRequest (ours sender : IdentityKey)

namespace NodeOp

open StateExcept NodeState SocialService

variable {W : Wire} {C : Cipher W}

/-- Write the database a function returns, if it does not fail. -/
def writeResult {ε : Type} (st : NodeState W) : Except ε (MetadataDb W) → NodeState W
  | .ok db => { st with db := db }
  | .error _ => st

/-- The state after an operation. -/
def apply (st : NodeState W) : NodeOp C → NodeState W
  | .connect env target msg => after (SocialService.connect env target msg) st
  | .accept env source => after (SocialService.accept env source) st
  | .reject env source => after (SocialService.reject env source) st
  | .cancelRequest env target => after (SocialService.cancelRequest env target) st
  | .resendRequest env target msg => after (SocialService.resendRequest env target msg) st
  | .disconnect env target => after (SocialService.disconnect env target) st
  | .unfollow env target => after (SocialService.unfollow env target) st
  | .follow env target => after (SocialService.follow env target) st
  | .block env target => after (SocialService.block env target) st
  | .unblock env target => after (SocialService.unblock env target) st
  | .send env target body ttl entropy => after (DirectMessage.send C env target body ttl entropy) st
  | .ingest ours payload now =>
    { st with db := (NodeIngest.ingestPayload st.db payload ours now).1 }
  | .putRecord record now =>
    match st.dht.put record now with
    | .ok dht => { st with dht := dht }
    | .error _ => st
  | .retrieveDhtDeadDrops ours now =>
    { st with
      db := (NodeIngest.retrieveDhtDeadDrops st.db st.dht ours now).1
      dht := (NodeIngest.retrieveDhtDeadDrops st.db st.dht ours now).2 }
  | .receiveConnectionRequest receiver sender message now =>
    { st with db := st.db.receiveConnectionRequest receiver sender message now }
  | .receiveMessage envelope ours secret now =>
    writeResult st ((Messaging.receiveMessage C st.db envelope ours secret now).map Prod.snd)
  | .acceptRequest ours sender => writeResult st (Messaging.acceptRequest st.db ours sender)
  | .rejectRequest ours sender => writeResult st (Messaging.rejectRequest st.db ours sender)

/-! ## Nodes to start from -/

/-- A node that has just been set up. -/
def fresh : NodeState W :=
  ⟨MetadataDb.empty, ⟨.empty, 100000, DhtStorage.defaultMaxRecordSize⟩, [], []⟩

/-- A call of `key` without network and DHT. -/
def offline (key : IdentityKey) (now : UInt64) : CallEnv W := ⟨.ok key, now, none, false⟩

/-- A call of `key` whose publications succeed. -/
def online (key : IdentityKey) (now : UInt64) : CallEnv W :=
  ⟨.ok key, now, some (fun _ => true), true⟩

def alice : IdentityKey := List.replicate 32 1

def bob : IdentityKey := List.replicate 32 2

def carol : IdentityKey := List.replicate 32 3

/-- A key is resolved from its text. -/
theorem resolve_encode {env : CallEnv W} {loc remote : IdentityKey}
    (hloc : env.identity = .ok loc) (hremote : remote.length = identityKeyLen) :
    resolve env (Hex.encode remote) = .ok (loc, remote) :=
  resolve_eq_ok.mpr ⟨hloc, NodeIngest.decodeKey_encode hremote⟩

end NodeOp
