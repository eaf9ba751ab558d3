/-
# Reactions (`ephemera-social/src/store/reaction.rs`, `interaction.rs`, the node's `react`)

A user has one reaction to a post at a time: the table has one row for a post and a user,
which `react` writes and `unreact` deletes, whatever emoji the removal names.  Several
identities of one node write to the same table.

A summary counts the rows of a post by their emoji.  `getReactions_after` says, for every
history of calls, that it counts the users whose last call on the post added that emoji.
-/
import Ephemera.Groups
import Ephemera.HashMap
import Ephemera.LastWrite
import Ephemera.SortedMap
import Mathlib.Data.Set.Card
import Mathlib.Data.String.Basic

namespace Reactions

open GuardedRun LastWrite

/-! ## Emoji -/

/-- `ReactionEmoji`. -/
inductive ReactionEmoji where
  | heart
  | laugh
  | fire
  | sad
  | thinking
  deriving DecidableEq, Repr

namespace ReactionEmoji

/-- `ReactionEmoji::ALL`. -/
def all : List ReactionEmoji := [.heart, .laugh, .fire, .sad, .thinking]

/-- The text of an emoji (`Display`). -/
def text : ReactionEmoji → String
  | .heart => "heart"
  | .laugh => "laugh"
  | .fire => "fire"
  | .sad => "sad"
  | .thinking => "thinking"

/-- The emoji that a text names (`FromStr`). -/
def parse (s : String) : Except SocialError ReactionEmoji :=
  if s = "heart" then .ok .heart
  else if s = "laugh" then .ok .laugh
  else if s = "fire" then .ok .fire
  else if s = "sad" then .ok .sad
  else if s = "thinking" then .ok .thinking
  else .error (.validation ("unknown emoji type: " ++ s))

theorem parse_text (e : ReactionEmoji) : parse e.text = .ok e := by
  cases e <;> rfl

theorem parse_eq_ok_iff {s : String} {e : ReactionEmoji} : parse s = .ok e ↔ s = e.text := by
  constructor
  · intro h
    unfold parse at h
    split_ifs at h with h₁ h₂ h₃ h₄ h₅ <;> cases h <;> assumption
  · rintro rfl
    exact parse_text e

theorem text_injective : Function.Injective text := by
  intro e e' h
  have heq : parse e.text = .ok e' := by rw [h, parse_text]
  rw [parse_text] at heq
  exact Except.ok.inj heq

theorem text_ne_myReaction (e : ReactionEmoji) : e.text ≠ "my_reaction" := by
  cases e <;> decide

end ReactionEmoji

/-! ## The store -/

/-- A row of `reactions`, less its primary key. -/
structure ReactionRow where
  emoji : String
  createdAt : Int64

/-- The table `reactions`, with `(post_hash, reactor_pubkey)` as its primary key. -/
abbrev ReactionTable := SqlTable (String × String) ReactionRow

/-- What SQLite decides by itself: the order in which `GROUP BY` lists the groups, and the
text that refuses a count above `u32`. -/
structure Sqlite where
  groups : VisitOrder String
  outOfRange : ℕ → String

/-- `ReactionSummary`. -/
structure ReactionSummary where
  counts : List (ReactionEmoji × UInt32)
  myEmoji : Option ReactionEmoji

/-- `SqliteSocialServices::react`. -/
def storeReact (t : ReactionTable) (postHash reactorPubkey : String) (emoji : ReactionEmoji)
    (createdAt : Int64) : ReactionTable :=
  t.upsert (postHash, reactorPubkey) ⟨emoji.text, createdAt⟩ (fun _ => ⟨emoji.text, createdAt⟩)

/-- `SqliteSocialServices::unreact`. -/
def storeUnreact (t : ReactionTable) (postHash reactorPubkey : String) : ReactionTable :=
  t.deleteWhere (fun k _ => decide (k = (postHash, reactorPubkey)))

/-- `SELECT emoji, COUNT(*) … WHERE post_hash = … GROUP BY emoji`. -/
def countByEmoji (sqlite : Sqlite) (t : ReactionTable) (postHash : String) :
    List (String × ℕ) :=
  let rows := t.selectWhere (fun k _ => decide (k.1 = postHash))
  (sqlite.groups.visit (rows.map (fun r => r.2.emoji)).dedup).map fun text =>
    (text, (rows.filter (fun r => decide (r.2.emoji = text))).length)

/-- `row.get::<_, u32>(1)`. -/
def countColumn (sqlite : Sqlite) (n : ℕ) : Except SocialError UInt32 :=
  if n < 2 ^ 32 then .ok (UInt32.ofNat n) else .error (.storage (sqlite.outOfRange n))

/-- The loop over the groups; one whose emoji is not known is left out. -/
def collectCounts (sqlite : Sqlite) :
    List (String × ℕ) → Except SocialError (List (ReactionEmoji × UInt32))
  | [] => .ok []
  | (text, n) :: rest => do
    let count ← countColumn sqlite n
    let counts ← collectCounts sqlite rest
    match ReactionEmoji.parse text with
    | .ok emoji => .ok ((emoji, count) :: counts)
    | .error _ => .ok counts

/-- `SqliteSocialServices::get_reactions`. -/
def storeGetReactions (sqlite : Sqlite) (t : ReactionTable) (postHash : String)
    (currentUserPubkey : Option String) : Except SocialError ReactionSummary := do
  let counts ← collectCounts sqlite (countByEmoji sqlite t postHash)
  let myEmoji := currentUserPubkey.bind fun pubkey =>
    (t.get? (postHash, pubkey)).bind fun row => (ReactionEmoji.parse row.emoji).toOption
  return ⟨counts, myEmoji⟩

/-! ## The service -/

/-- A call of `SocialService::react`: the identity that is active (or why there is none), the
parameters and the clock. -/
structure ReactCall where
  identity : Except String IdentityKey
  hash : String
  emoji : String
  action : String
  now : UInt64

/-- `SocialService::react`: the answer, and the table it leaves. -/
def react (t : ReactionTable) (c : ReactCall) : Except String Json × ReactionTable :=
  match c.identity with
  | .error e => (.error e, t)
  | .ok loc =>
    match ReactionEmoji.parse c.emoji with
    | .error e => (.error e.text, t)
    | .ok emoji =>
      if c.action = "add" then
        (.ok [("reacted", .other), ("emoji", .str c.emoji)],
          storeReact t c.hash (Hex.encode loc) emoji c.now.toInt64)
      else if c.action = "remove" then
        (.ok [("unreacted", .other)], storeUnreact t c.hash (Hex.encode loc))
      else
        (.error ("unknown action: " ++ c.action ++ ", expected 'add' or 'remove'"), t)

/-- The table after a call. -/
def step (t : ReactionTable) (c : ReactCall) : ReactionTable := (react t c).2

/-- `SocialService::get_reactions`: a number for each emoji, and the caller's own. -/
def getReactions (sqlite : Sqlite) (t : ReactionTable) (identity : Except String IdentityKey)
    (hash : String) : Except String (SortedMap String JsonField) := do
  let loc ← identity
  let summary ← (storeGetReactions sqlite t hash (some (Hex.encode loc))).mapError
    (fun e => "get reactions: " ++ e.text)
  let zeros : SortedMap String JsonField :=
    ReactionEmoji.all.foldl (fun m emoji => m.insert emoji.text (.uint 0)) .empty
  let counted := summary.counts.foldl
    (fun m entry => m.insert entry.1.text (.uint entry.2.toUInt64)) zeros
  return counted.insert "my_reaction" (.ofOption (summary.myEmoji.map ReactionEmoji.text))

/-! ## What a call does to a row -/

/-- The row a call writes or deletes, with the emoji it leaves there. -/
def writes (c : ReactCall) : Option ((String × String) × Option ReactionEmoji) :=
  match c.identity, ReactionEmoji.parse c.emoji with
  | .ok loc, .ok emoji =>
    if c.action = "add" then some ((c.hash, Hex.encode loc), some emoji)
    else if c.action = "remove" then some ((c.hash, Hex.encode loc), none)
    else none
  | _, _ => none

/-- The emoji in a row. -/
def emojiAt (t : ReactionTable) (k : String × String) : Option ReactionEmoji :=
  (t.get? k).bind fun row => (ReactionEmoji.parse row.emoji).toOption

/-- The call adds the emoji as the user's reaction to the post. -/
structure Adds (c : ReactCall) (hash : String) (user : IdentityKey) (e : ReactionEmoji) : Prop where
  identity : c.identity = .ok user
  hash : c.hash = hash
  emoji : c.emoji = e.text
  action : c.action = "add"

/-- The call sets or removes the user's reaction to the post. -/
structure Touches (c : ReactCall) (hash : String) (user : IdentityKey) : Prop where
  identity : c.identity = .ok user
  hash : c.hash = hash
  emoji : ∃ e : ReactionEmoji, c.emoji = e.text
  action : c.action = "add" ∨ c.action = "remove"

/-- The users whose last call on the post added the emoji. -/
def reactors (calls : List ReactCall) (hash : String) (e : ReactionEmoji) : Set IdentityKey :=
  {user | ∃ front call back, calls = front ++ call :: back ∧ Adds call hash user e ∧
    ∀ later ∈ back, ¬ Touches later hash user}

theorem hex_injective : Function.Injective Hex.encode := by
  intro a b h
  have hdec : Hex.decode (Hex.encode a) = .ok b := by rw [h, Hex.decode_encode]
  rw [Hex.decode_encode] at hdec
  exact Except.ok.inj hdec

theorem writes_add_iff {c : ReactCall} {hash : String} {user : IdentityKey} {e : ReactionEmoji} :
    writes c = some ((hash, Hex.encode user), some e) ↔ Adds c hash user e := by
  constructor
  · intro h
    unfold writes at h
    split at h
    · next loc emoji hid hemoji =>
      split_ifs at h with hadd
      · simp only [Option.some.injEq, Prod.mk.injEq] at h
        obtain ⟨⟨hhash, huser⟩, rfl⟩ := h
        exact ⟨by rw [hid, hex_injective huser], hhash, ReactionEmoji.parse_eq_ok_iff.mp hemoji,
          hadd⟩
      · exact absurd (Prod.mk.inj (Option.some.inj h)).2 (fun hnone => (by cases hnone))
    · cases h
  · rintro ⟨hid, rfl, hemoji, hadd⟩
    rw [writes, hid, hemoji, ReactionEmoji.parse_text]
    exact if_pos hadd

theorem writes_iff {c : ReactCall} {hash : String} {user : IdentityKey} :
    (∃ v, writes c = some ((hash, Hex.encode user), v)) ↔ Touches c hash user := by
  constructor
  · rintro ⟨v, h⟩
    unfold writes at h
    split at h
    · next loc emoji hid hemoji =>
      have hparsed := ReactionEmoji.parse_eq_ok_iff.mp hemoji
      split_ifs at h with hadd hremove
      · simp only [Option.some.injEq, Prod.mk.injEq] at h
        exact ⟨by rw [hid, hex_injective h.1.2], h.1.1, ⟨emoji, hparsed⟩, Or.inl hadd⟩
      · simp only [Option.some.injEq, Prod.mk.injEq] at h
        exact ⟨by rw [hid, hex_injective h.1.2], h.1.1, ⟨emoji, hparsed⟩, Or.inr hremove⟩
    · cases h
  · rintro ⟨hid, rfl, ⟨e, hemoji⟩, haction⟩
    rw [writes, hid, hemoji, ReactionEmoji.parse_text]
    rcases haction with hadd | hremove
    · exact ⟨some e, if_pos hadd⟩
    · have hne : c.action ≠ "add" := by rw [hremove]; decide
      refine ⟨none, ?_⟩
      show (if c.action = "add" then _ else if c.action = "remove" then _ else _) = _
      rw [if_neg hne, if_pos hremove]

/-- **One call**: it writes or deletes the row it names, and no other. -/
theorem emojiAt_step (t : ReactionTable) (c : ReactCall) (k : String × String) :
    emojiAt (step t c) k = after writes k (emojiAt t k) c := by
  unfold step react after writes
  cases hid : c.identity with
  | error e => rfl
  | ok loc =>
    cases hemoji : ReactionEmoji.parse c.emoji with
    | error e => rfl
    | ok emoji =>
      show emojiAt (Prod.snd
        (if c.action = "add" then _ else if c.action = "remove" then _ else _)) k = _
      by_cases hadd : c.action = "add"
      · simp only [if_pos hadd]
        show (SqlTable.get? (storeReact _ _ _ _ _) k).bind _ = _
        rw [storeReact, SqlTable.get?_upsert]
        by_cases hk : k = (c.hash, Hex.encode loc)
        · rw [if_pos hk, if_pos hk]
          have hrow : (((t.get? (c.hash, Hex.encode loc)).map
              (fun _ => (⟨emoji.text, c.now.toInt64⟩ : ReactionRow))).getD
                ⟨emoji.text, c.now.toInt64⟩) = ⟨emoji.text, c.now.toInt64⟩ := by
            cases t.get? (c.hash, Hex.encode loc) <;> rfl
          rw [hrow, Option.bind_some, ReactionEmoji.parse_text]
          rfl
        · rw [if_neg hk, if_neg hk]
          rfl
      · by_cases hremove : c.action = "remove"
        · simp only [if_neg hadd, if_pos hremove]
          show (SqlTable.get? (storeUnreact _ _ _) k).bind _ = _
          rw [storeUnreact, SqlTable.get?_deleteWhere_key]
          by_cases hk : k = (c.hash, Hex.encode loc)
          · rw [if_pos hk, if_pos (decide_eq_true hk)]
            rfl
          · rw [if_neg hk, if_neg (by simpa using hk)]
            rfl
        · simp only [if_neg hadd, if_neg hremove]

/-- The emoji of a user's row on a post, after a history of calls. -/
theorem emojiAt_run_iff {calls : List ReactCall} {hash : String} {user : IdentityKey}
    {e : ReactionEmoji} :
    emojiAt (run step .empty calls) (hash, Hex.encode user) = some e ↔
      user ∈ reactors calls hash e := by
  have hget := get_run emojiAt_step (s := (.empty : ReactionTable)) (fun _ => rfl) calls
    (hash, Hex.encode user)
  rw [hget, lastWrite_eq_some_iff]
  constructor
  · rintro ⟨front, call, back, hcalls, hadd, hlater⟩
    refine ⟨front, call, back, hcalls, writes_add_iff.mp hadd, fun later hmem ht => ?_⟩
    obtain ⟨v, hv⟩ := writes_iff.mpr ht
    exact hlater later hmem v hv
  · rintro ⟨front, call, back, hcalls, hadd, hlater⟩
    refine ⟨front, call, back, hcalls, writes_add_iff.mpr hadd, fun later hmem v hv => ?_⟩
    exact hlater later hmem (writes_iff.mp ⟨v, hv⟩)

theorem emojiAt_eq_some_iff {t : ReactionTable} {k : String × String} {e : ReactionEmoji} :
    emojiAt t k = some e ↔ ∃ row, t.get? k = some row ∧ row.emoji = e.text := by
  rw [emojiAt, Option.bind_eq_some_iff]
  refine exists_congr fun row => and_congr_right fun _ => ?_
  rw [← ReactionEmoji.parse_eq_ok_iff]
  cases ReactionEmoji.parse row.emoji <;> simp [Except.toOption]

/-! ## Counting -/

/-- The users of a history. -/
def users (calls : List ReactCall) : List IdentityKey :=
  (calls.filterMap (fun c => c.identity.toOption)).dedup

theorem mem_users_of_adds {calls : List ReactCall} {c : ReactCall} {hash : String}
    {user : IdentityKey} {e : ReactionEmoji} (hc : c ∈ calls) (h : Adds c hash user e) :
    user ∈ users calls := by
  rw [users, List.mem_dedup, List.mem_filterMap]
  exact ⟨c, hc, by rw [h.identity]; rfl⟩

/-- The rows of a post that hold the emoji. -/
def rowsOf (t : ReactionTable) (hash : String) (e : ReactionEmoji) :
    List ((String × String) × ReactionRow) :=
  t.selectWhere (fun k row => decide (k.1 = hash) && decide (row.emoji = e.text))

theorem any_get?_iff {t : ReactionTable} {hash : String} {user : IdentityKey} {e : ReactionEmoji} :
    (t.get? (hash, Hex.encode user)).any
        (fun row => decide (hash = hash) && decide (row.emoji = e.text)) = true ↔
      emojiAt t (hash, Hex.encode user) = some e := by
  rw [emojiAt_eq_some_iff, Option.any_eq_true]
  refine exists_congr fun row => and_congr_right fun _ => ?_
  simp

/-- **As many rows as users**: those whose last call on the post added the emoji. -/
theorem length_rowsOf (calls : List ReactCall) (hash : String) (e : ReactionEmoji) :
    (rowsOf (run step .empty calls) hash e).length = (reactors calls hash e).ncard := by
  have hnodup : (users calls).Nodup := List.nodup_dedup _
  have hkeys : ((users calls).map (fun user => (hash, Hex.encode user))).Nodup :=
    hnodup.map fun a b h => hex_injective (Prod.mk.inj h).2
  have hall : ∀ k row, (run step .empty calls).get? k = some row →
      (decide (k.1 = hash) && decide (row.emoji = e.text)) = true →
      k ∈ (users calls).map (fun user => (hash, Hex.encode user)) := by
    intro k row hrow hp
    rw [Bool.and_eq_true, decide_eq_true_eq, decide_eq_true_eq] at hp
    obtain ⟨rfl, hemoji⟩ := hp
    have hat := emojiAt_eq_some_iff.mpr ⟨row, hrow, hemoji⟩
    rw [get_run emojiAt_step (fun _ => rfl), lastWrite_eq_some_iff] at hat
    obtain ⟨front, call, back, hcalls, hwrites, -⟩ := hat
    have hkey : ∃ user, k = (k.1, Hex.encode user) := by
      have h := hwrites
      unfold writes at h
      split at h
      · next loc emoji hid hparse =>
        split_ifs at h
        · rw [← (Prod.mk.inj (Option.some.inj h)).1]
          exact ⟨loc, rfl⟩
        · rw [← (Prod.mk.inj (Option.some.inj h)).1]
          exact ⟨loc, rfl⟩
      · cases h
    obtain ⟨user, huser⟩ := hkey
    rw [huser] at hwrites
    refine List.mem_map.mpr ⟨user, ?_, huser.symm⟩
    exact mem_users_of_adds (by rw [hcalls]; simp) (writes_add_iff.mp hwrites)
  have hset : reactors calls hash e = ↑((users calls).filter (fun user =>
      ((run step .empty calls).get? (hash, Hex.encode user)).any
        (fun row => decide (hash = hash) && decide (row.emoji = e.text)))).toFinset := by
    ext user
    rw [Finset.mem_coe, List.mem_toFinset, List.mem_filter, any_get?_iff, emojiAt_run_iff]
    constructor
    · intro h
      obtain ⟨front, call, back, hcalls, hadds, -⟩ := id h
      exact ⟨mem_users_of_adds (by rw [hcalls]; simp) hadds, h⟩
    · exact fun h => h.2
  rw [rowsOf, SqlTable.length_selectWhere_eq_countP _ _ hkeys hall, List.countP_map,
    List.countP_eq_length_filter, hset, Set.ncard_coe_finset,
    List.toFinset_card_of_nodup (hnodup.filter _)]
  rfl

/-! ## The summary -/

theorem length_rows_step_le (t : ReactionTable) (c : ReactCall) :
    (step t c).rows.length ≤ t.rows.length + 1 := by
  unfold step react
  cases c.identity with
  | error e => exact Nat.le_succ _
  | ok loc =>
    cases ReactionEmoji.parse c.emoji with
    | error e => exact Nat.le_succ _
    | ok emoji =>
      show (SqlTable.rows (Prod.snd
        (if c.action = "add" then _ else if c.action = "remove" then _ else _))).length ≤ _
      split_ifs
      · show (storeReact _ _ _ _ _).rows.length ≤ _
        rw [storeReact, SqlTable.upsert]
        split
        · rw [SqlTable.append, List.length_append, List.length_singleton]
        · rw [SqlTable.updateWhere, List.length_map]
          exact Nat.le_succ _
      · show (storeUnreact _ _ _).rows.length ≤ _
        exact le_trans (List.length_filter_le _ _) (Nat.le_succ _)
      · exact Nat.le_succ _

theorem length_rows_run_le (calls : List ReactCall) :
    (run step .empty calls).rows.length ≤ calls.length := by
  induction calls using List.reverseRecOn with
  | nil => exact le_rfl
  | append_singleton calls c ih =>
    rw [run_append, run_cons, run_nil, List.length_append, List.length_singleton]
    exact le_trans (length_rows_step_le _ c) (by omega)

/-- The table has a count for every group, and none for an emoji that nobody chose. -/
theorem mem_countByEmoji {sqlite : Sqlite} {t : ReactionTable} {hash text : String} {n : ℕ}
    (h : (text, n) ∈ countByEmoji sqlite t hash) :
    n = (t.selectWhere (fun k row => decide (k.1 = hash) && decide (row.emoji = text))).length := by
  obtain ⟨text', -, hpair⟩ := List.mem_map.mp h
  obtain ⟨rfl, rfl⟩ := Prod.mk.inj hpair
  rw [SqlTable.selectWhere, SqlTable.selectWhere, List.filter_filter]
  congr 2
  funext r
  exact Bool.and_comm _ _

theorem exists_mem_countByEmoji {sqlite : Sqlite} {t : ReactionTable} {hash : String}
    {e : ReactionEmoji} (h : rowsOf t hash e ≠ []) :
    ∃ n, (e.text, n) ∈ countByEmoji sqlite t hash := by
  obtain ⟨r, hr⟩ := List.exists_mem_of_ne_nil _ h
  obtain ⟨hrow, hp⟩ := List.mem_filter.mp hr
  rw [Bool.and_eq_true, decide_eq_true_eq, decide_eq_true_eq] at hp
  refine ⟨_, List.mem_map.mpr ⟨e.text, ?_, rfl⟩⟩
  rw [(sqlite.groups.perm _).mem_iff, List.mem_dedup, List.mem_map]
  exact ⟨r, List.mem_filter.mpr ⟨hrow, by simpa using hp.1⟩, hp.2⟩

/-- While no count is above `u32`, the loop keeps the groups whose emoji is known. -/
theorem collectCounts_of_le (sqlite : Sqlite) {groups : List (String × ℕ)}
    (h : ∀ g ∈ groups, g.2 < 2 ^ 32) :
    ∃ counts, collectCounts sqlite groups = .ok counts ∧ ∀ e n, (e, n) ∈ counts ↔
      (∃ m, (e.text, m) ∈ groups ∧ n = UInt32.ofNat m) := by
  induction groups with
  | nil => exact ⟨[], rfl, fun e n => by simp⟩
  | cons g groups ih =>
    obtain ⟨text, m⟩ := g
    obtain ⟨counts, hcounts, hmem⟩ := ih fun g hg => h g (List.mem_cons_of_mem _ hg)
    have hcount : countColumn sqlite m = .ok (UInt32.ofNat m) := if_pos (h _ List.mem_cons_self)
    cases hparse : ReactionEmoji.parse text with
    | ok emoji =>
      have htext := ReactionEmoji.parse_eq_ok_iff.mp hparse
      refine ⟨(emoji, UInt32.ofNat m) :: counts, ?_, fun e n => ?_⟩
      · simp only [collectCounts, hcount, hcounts, hparse]
        rfl
      · rw [List.mem_cons, hmem, Prod.mk.injEq]
        constructor
        · rintro (⟨rfl, rfl⟩ | ⟨m', hm', rfl⟩)
          · exact ⟨m, by rw [htext]; exact List.mem_cons_self, rfl⟩
          · exact ⟨m', List.mem_cons_of_mem _ hm', rfl⟩
        · rintro ⟨m', hm', rfl⟩
          rcases List.mem_cons.mp hm' with heq | hm'
          · obtain ⟨he, rfl⟩ := Prod.mk.inj heq
            exact Or.inl ⟨ReactionEmoji.text_injective (he.trans htext), rfl⟩
          · exact Or.inr ⟨m', hm', rfl⟩
    | error err =>
      refine ⟨counts, ?_, fun e n => ?_⟩
      · simp only [collectCounts, hcount, hcounts, hparse]
        rfl
      · rw [hmem]
        refine ⟨fun ⟨m', hm', hn⟩ => ⟨m', List.mem_cons_of_mem _ hm', hn⟩, ?_⟩
        rintro ⟨m', hm', rfl⟩
        rcases List.mem_cons.mp hm' with heq | hm'
        · rw [← (Prod.mk.inj heq).1, ReactionEmoji.parse_text] at hparse
          cases hparse
        · exact ⟨m', hm', rfl⟩

/-- The numbers written under an emoji, when they are all the same. -/
theorem get?_foldl_insert {counts : List (ReactionEmoji × UInt32)} {e : ReactionEmoji} {n : UInt32}
    (h : ∀ m, (e, m) ∈ counts → m = n) {map : SortedMap String JsonField}
    (hmap : e ∉ counts.map Prod.fst → map.get? e.text = some (.uint n.toUInt64)) :
    (counts.foldl (fun m entry => m.insert entry.1.text (.uint entry.2.toUInt64)) map).get? e.text
      = some (.uint n.toUInt64) := by
  induction counts generalizing map with
  | nil => exact hmap List.not_mem_nil
  | cons entry counts ih =>
    obtain ⟨e', n'⟩ := entry
    refine ih (fun m hm => h m (List.mem_cons_of_mem _ hm)) fun hrest => ?_
    rw [SortedMap.get?_insert]
    by_cases he : e = e'
    · subst he
      rw [if_pos rfl, h n' List.mem_cons_self]
    · have hne : e'.text ≠ e.text := fun heq => he (ReactionEmoji.text_injective heq.symm)
      rw [if_neg hne]
      refine hmap fun hmem => ?_
      rcases List.mem_cons.mp hmem with heq | hmem
      · exact he heq
      · exact hrest hmem

theorem get?_zeros (e : ReactionEmoji) :
    (ReactionEmoji.all.foldl (fun m emoji => m.insert emoji.text (JsonField.uint 0))
      (SortedMap.empty : SortedMap String JsonField)).get? e.text = some (.uint 0) := by
  cases e <;> rfl

/-- **A summary counts users.**  After any history of calls, the number under an emoji is the
number of users whose last call on the post added it, and the caller's own reaction is the
emoji their last call added, if it did not remove one. -/
theorem getReactions_after (sqlite : Sqlite) (calls : List ReactCall) (hash : String)
    (me : IdentityKey) (h : calls.length < 2 ^ 32) :
    ∃ answer, getReactions sqlite (run step .empty calls) (.ok me) hash = .ok answer ∧
      (∀ e : ReactionEmoji, ∃ n : UInt64, answer.get? e.text = some (.uint n) ∧
        n.toNat = (reactors calls hash e).ncard) ∧
      ∃ own : Option ReactionEmoji,
        answer.get? "my_reaction" = some (.ofOption (own.map ReactionEmoji.text)) ∧
          ∀ e, own = some e ↔ me ∈ reactors calls hash e := by
  have hle : ∀ p, ((run step .empty calls).selectWhere p).length < 2 ^ 32 := fun p =>
    lt_of_le_of_lt (le_trans (List.length_filter_le _ _) (length_rows_run_le calls)) h
  have hgroups : ∀ g ∈ countByEmoji sqlite (run step .empty calls) hash, g.2 < 2 ^ 32 := by
    rintro ⟨text, m⟩ hg
    show m < 2 ^ 32
    rw [mem_countByEmoji hg]
    exact hle _
  obtain ⟨counts, hcounts, hmem⟩ := collectCounts_of_le sqlite hgroups
  refine ⟨_, by simp only [getReactions, storeGetReactions, hcounts]; rfl, fun e => ?_,
    emojiAt (run step .empty calls) (hash, Hex.encode me), ?_, fun e => emojiAt_run_iff⟩
  · rw [SortedMap.get?_insert, if_neg (ReactionEmoji.text_ne_myReaction e).symm]
    have hrows : (rowsOf (run step .empty calls) hash e).length < 2 ^ 32 := hle _
    refine ⟨_, get?_foldl_insert (n := UInt32.ofNat (rowsOf (run step .empty calls) hash e).length)
      (fun m hm => ?_) (fun hnone => ?_), ?_⟩
    · obtain ⟨m', hgroup, rfl⟩ := (hmem e m).mp hm
      rw [mem_countByEmoji hgroup]
      rfl
    · have hnil : rowsOf (run step .empty calls) hash e = [] := by
        by_contra hne
        obtain ⟨n, hn⟩ := @exists_mem_countByEmoji sqlite _ _ _ hne
        exact hnone (List.mem_map.mpr ⟨_, (hmem e _).mpr ⟨n, hn, rfl⟩, rfl⟩)
      rw [get?_zeros, hnil]
      rfl
    · rw [UInt32.toNat_toUInt64, UInt32.toNat_ofNat_of_lt' hrows, length_rowsOf]
  · rw [SortedMap.get?_insert, if_pos rfl]
    rfl

/-- Two users like a post; one changes to fire, the other removes its like by another emoji. -/
def changes : List ReactCall :=
  [⟨.ok [1], "post", "heart", "add", 10⟩, ⟨.ok [2], "post", "heart", "add", 11⟩,
    ⟨.ok [1], "post", "fire", "add", 12⟩, ⟨.ok [2], "post", "sad", "remove", 13⟩,
    ⟨.ok [2], "post", "smile", "add", 14⟩, ⟨.error "locked", "post", "fire", "add", 15⟩]

/-- SQLite that lists the groups by their first rows. -/
def asFound : Sqlite := ⟨.asListed String, fun _ => "out of range"⟩

theorem getReactions_after_changes :
    ∃ answer, getReactions asFound (run step .empty changes) (.ok [1]) "post" = .ok answer ∧
      (∀ e : ReactionEmoji, ∃ n : UInt64, answer.get? e.text = some (.uint n) ∧
        n.toNat = (reactors changes "post" e).ncard) ∧
      ∃ own : Option ReactionEmoji,
        answer.get? "my_reaction" = some (.ofOption (own.map ReactionEmoji.text)) ∧
          ∀ e, own = some e ↔ [1] ∈ reactors changes "post" e :=
  getReactions_after asFound changes "post" [1] (by decide)

end Reactions
