/-
# Who governs a group

Two results about every run of the group operations.

* Admission: members and bans of a group stay apart, and a group that is not public gains a
  member only when it is created or by an invitation (`admission_control`).
* Ownership and privilege: every group has exactly one owner and nobody acts upwards, exactly
  in the runs where no `set_group_role` and no `ban_member` reaches a member of equal or
  higher role (`run_safe_iff_permitted`).  Both calls leave out the check that `kick_member`
  makes on the role of its target.

`WellFormed` is the invariant under both: members and bans belong to groups that exist.
-/
import Ephemera.GroupOp

namespace GroupGovernance

open GuardedRun GroupService GroupOp
open GroupStore (groupIdFromName)

variable {hashHex : String → String} {db : GroupDb}

/-! ## Members and bans -/

/-- Members and bans belong to groups that exist, and no key is both. -/
structure WellFormed (db : GroupDb) : Prop where
  member_group : ∀ g m, db.members.get? (g, m) ≠ none → db.groups.get? g ≠ none
  ban_group : ∀ g m, db.bans.get? (g, m) ≠ none → db.groups.get? g ≠ none
  apart : ∀ g m, db.members.get? (g, m) ≠ none → db.bans.get? (g, m) = none

theorem wellFormed_empty : WellFormed GroupDb.empty where
  member_group := by
    intro g m h
    exact absurd (SqlTable.get?_empty _) h
  ban_group := by
    intro g m h
    exact absurd (SqlTable.get?_empty _) h
  apart := by
    intro g m _
    exact SqlTable.get?_empty _

/-- The caller of a group that grants it a role finds the group there. -/
theorem WellFormed.group_of_caller (hwf : WellFormed db) {env : GroupEnv} {g pubkey : String}
    {role : GroupRole} (h : callerRole db env g = .ok (pubkey, role)) :
    db.groups.get? g ≠ none := by
  obtain ⟨loc, -, -, hrole⟩ := callerRole_eq_ok.mp h
  obtain ⟨row, hrow, -⟩ := GroupDb.role_eq_some_iff.mp hrole
  exact hwf.member_group g pubkey (by simp [hrow])

/-- A member that is not banned may be added to a group that exists. -/
theorem WellFormed.addMember (hwf : WellFormed db) {g m : String} (row : GroupMemberRow)
    (hgroup : db.groups.get? g ≠ none) (hban : db.isBanned g m = false) :
    WellFormed (db.addMember g m row) where
  member_group := by
    intro g' m' h
    rw [GroupDb.addMember, SqlTable.get?_insertOrIgnore] at h
    split at h
    · rename_i hk
      obtain ⟨rfl, rfl⟩ := Prod.mk.inj hk
      exact hgroup
    · exact hwf.member_group g' m' h
  ban_group := hwf.ban_group
  apart := by
    intro g' m' h
    rw [GroupDb.addMember, SqlTable.get?_insertOrIgnore] at h
    split at h
    · rename_i hk
      obtain ⟨rfl, rfl⟩ := Prod.mk.inj hk
      show db.bans.get? (g', m') = none
      simpa [GroupDb.isBanned] using hban
    · exact hwf.apart g' m' h

theorem WellFormed.removeMember (hwf : WellFormed db) (g m : String) :
    WellFormed (db.removeMember g m) := by
  have hold : ∀ k, (db.removeMember g m).members.get? k ≠ none → db.members.get? k ≠ none :=
    fun k h hnone => h (GroupDb.members_removeMember_of_none hnone g m)
  exact ⟨fun g' m' h => hwf.member_group g' m' (hold _ h), hwf.ban_group,
    fun g' m' h => hwf.apart g' m' (hold _ h)⟩

theorem WellFormed.updateRole (hwf : WellFormed db) (g m : String) (r : GroupRole) :
    WellFormed (db.updateRole g m r) := by
  have hold : ∀ k, (db.updateRole g m r).members.get? k ≠ none → db.members.get? k ≠ none :=
    fun k h hnone => h (GroupDb.members_updateRole_of_none hnone g m r)
  exact ⟨fun g' m' h => hwf.member_group g' m' (hold _ h), hwf.ban_group,
    fun g' m' h => hwf.apart g' m' (hold _ h)⟩

/-- A key without a row of its own may be banned. -/
theorem WellFormed.ban (hwf : WellFormed db) {g m : String} (row : GroupBanRow)
    (hgroup : db.groups.get? g ≠ none) :
    WellFormed { db.removeMember g m with bans := db.bans.insertOrReplace (g, m) row } where
  member_group := (hwf.removeMember g m).member_group
  ban_group := by
    intro g' m' h
    simp only [SqlTable.get?_insertOrReplace] at h
    split at h
    · rename_i hk
      obtain ⟨rfl, rfl⟩ := Prod.mk.inj hk
      exact hgroup
    · exact hwf.ban_group g' m' h
  apart := by
    intro g' m' h
    have hmem := (hwf.removeMember g m).apart g' m' h
    simp only [GroupDb.members_removeMember] at h
    rw [SqlTable.get?_insertOrReplace]
    split
    · rename_i hk
      rw [if_pos hk] at h
      exact absurd rfl h
    · exact hmem

theorem WellFormed.deleted (hwf : WellFormed db) (g : String) :
    WellFormed (GroupOp.deleted db g) where
  member_group := by
    intro g' m' h
    rw [members_deleted] at h
    rw [groups_deleted]
    by_cases hg : g' = g
    · rw [if_pos hg] at h
      exact absurd rfl h
    · rw [if_neg hg] at h ⊢
      exact hwf.member_group g' m' h
  ban_group := by
    intro g' m' h
    rw [bans_deleted] at h
    rw [groups_deleted]
    by_cases hg : g' = g
    · rw [if_pos hg] at h
      exact absurd rfl h
    · rw [if_neg hg] at h ⊢
      exact hwf.ban_group g' m' h
  apart := by
    intro g' m' h
    rw [members_deleted] at h
    rw [bans_deleted]
    by_cases hg : g' = g
    · exact if_pos hg
    · rw [if_neg hg] at h ⊢
      exact hwf.apart g' m' h

/-- A new group has no members and no bans, so its creator may become its owner. -/
theorem WellFormed.create (hwf : WellFormed db) {g m : String} (row : GroupRow)
    (member : GroupMemberRow) (hgroup : db.groups.get? g = none) :
    WellFormed { db with
      groups := db.groups.insertOrIgnore g row
      members := db.members.insertOrIgnore (g, m) member } := by
  have hstays : ∀ g', db.groups.get? g' ≠ none →
      (db.groups.insertOrIgnore g row).get? g' ≠ none := by
    intro g' h
    rw [SqlTable.get?_insertOrIgnore]
    split
    · simp
    · exact h
  have hnew : (db.groups.insertOrIgnore g row).get? g ≠ none := by
    rw [SqlTable.get?_insertOrIgnore, if_pos rfl]
    simp
  refine ⟨?_, fun g' m' h => hstays g' (hwf.ban_group g' m' h), ?_⟩
  · intro g' m' h
    rw [SqlTable.get?_insertOrIgnore] at h
    split at h
    · rename_i hk
      obtain ⟨rfl, rfl⟩ := Prod.mk.inj hk
      exact hnew
    · exact hstays g' (hwf.member_group g' m' h)
  · intro g' m' h
    rw [SqlTable.get?_insertOrIgnore] at h
    split at h
    · rename_i hk
      obtain ⟨rfl, rfl⟩ := Prod.mk.inj hk
      by_contra hban
      exact hwf.ban_group g' m' hban hgroup
    · exact hwf.apart g' m' h

/-- Every operation keeps the tables well formed. -/
theorem wellFormed_apply (hwf : WellFormed db) (op : GroupOp) :
    WellFormed (apply hashHex db op) := by
  have heffect : Effect hashHex db op (apply hashHex db op) := effect_apply db op
  generalize apply hashHex db op = db' at heffect ⊢
  cases heffect with
  | idle h =>
    obtain ⟨hg, hm, hb⟩ : db'.groups = db.groups ∧ db'.members = db.members ∧
        db'.bans = db.bans := by
      simpa [governance, Prod.ext_iff] using h
    exact ⟨by rw [hg, hm]; exact hwf.member_group, by rw [hg, hb]; exact hwf.ban_group,
      by rw [hm, hb]; exact hwf.apart⟩
  | created hid hgroup hmember => exact hwf.create _ _ hgroup
  | halfCreated hgroup hmember => exact absurd hgroup (hwf.member_group _ _ hmember)
  | joined hid hgroup hpublic hban => exact hwf.addMember _ (by simp [hgroup]) hban
  | invited hcaller hinvite hban => exact hwf.addMember _ (hwf.group_of_caller hcaller) hban
  | left hid hrole => exact hwf.removeMember _ _
  | roleSet hcaller hset => exact hwf.updateRole _ _ _
  | kicked hcaller hrank => exact hwf.removeMember _ _
  | banned hcaller hban => exact hwf.ban _ (hwf.group_of_caller hcaller)
  | transferred hcaller hnew => exact (hwf.updateRole _ _ _).updateRole _ _ _
  | deleted hcaller => exact hwf.deleted _

theorem wellFormed_run (ops : List GroupOp) :
    WellFormed (run (apply hashHex) GroupDb.empty ops) := by
  have hstep : ∀ db op, WellFormed db → WellFormed (apply hashHex db op) :=
    fun db op h => wellFormed_apply h op
  exact run_invariant_of_step hstep wellFormed_empty ops

/-! ## Admission -/

/-- The operation makes `m` a member of `g` by creating the group, or by an invitation of a
member that may invite. -/
def Admits (hashHex : String → String) (db : GroupDb) (op : GroupOp) (g m : String) : Prop :=
  (∃ env name description visibility loc, op = .createGroup env name description visibility ∧
    env.identity = .ok loc ∧ g = groupIdFromName hashHex name ∧ m = Hex.encode loc) ∨
  ∃ env loc role, op = .inviteToGroup env g m ∧ env.identity = .ok loc ∧
    db.role g (Hex.encode loc) = some role ∧
    (role = .owner ∨ role = .admin ∨ role = .moderator)

/-- A member that is new came in by one of the three ways. -/
theorem admits_of_new {op : GroupOp} {g m : String} {group : GroupRow}
    (hold : db.members.get? (g, m) = none)
    (hnew : (apply hashHex db op).members.get? (g, m) ≠ none)
    (hgroup : (apply hashHex db op).groups.get? g = some group)
    (hclosed : group.visibility ≠ .publicGroup) : Admits hashHex db op g m := by
  have heffect : Effect hashHex db op (apply hashHex db op) := effect_apply db op
  generalize apply hashHex db op = db' at heffect hnew hgroup
  -- an insertion is the only effect that can make the row appear
  cases heffect with
  | idle h =>
    have hm : db'.members = db.members := congrArg (fun t => t.2.1) h
    rw [hm] at hnew
    exact absurd hold hnew
  | @created env name description visibility loc hid _ _ =>
    left
    simp only [SqlTable.get?_insertOrIgnore] at hnew
    split at hnew
    · rename_i hk
      obtain ⟨rfl, rfl⟩ := Prod.mk.inj hk
      exact ⟨env, name, description, visibility, loc, rfl, hid, rfl, rfl⟩
    · exact absurd hold hnew
  | halfCreated _ _ => exact absurd hold hnew
  | @joined env g' loc row hid hrow hpublic hban =>
    simp only [GroupDb.addMember, SqlTable.get?_insertOrIgnore] at hnew
    split at hnew
    · rename_i hk
      obtain ⟨rfl, rfl⟩ := Prod.mk.inj hk
      have hsame : row = group := Option.some.inj (hrow.symm.trans hgroup)
      exact absurd (hsame ▸ hpublic) hclosed
    · exact absurd hold hnew
  | @invited env g' target pubkey role hcaller hinvite hban =>
    right
    simp only [GroupDb.addMember, SqlTable.get?_insertOrIgnore] at hnew
    split at hnew
    · rename_i hk
      obtain ⟨rfl, rfl⟩ := Prod.mk.inj hk
      obtain ⟨loc, hid, rfl, hrole⟩ := callerRole_eq_ok.mp hcaller
      refine ⟨env, loc, role, rfl, hid, hrole, ?_⟩
      cases role <;> simp [GroupRole.canInvite] at hinvite ⊢
    · exact absurd hold hnew
  | left hid hrole => exact absurd (GroupDb.members_removeMember_of_none hold _ _) hnew
  | roleSet hcaller hset => exact absurd (GroupDb.members_updateRole_of_none hold _ _ _) hnew
  | kicked hcaller hrank => exact absurd (GroupDb.members_removeMember_of_none hold _ _) hnew
  | banned hcaller hban => exact absurd (GroupDb.members_removeMember_of_none hold _ _) hnew
  | @transferred env g' newOwner pubkey hcaller h =>
    have hfirst := GroupDb.members_updateRole_of_none hold g' pubkey .admin
    exact absurd (GroupDb.members_updateRole_of_none hfirst _ _ _) hnew
  | deleted hcaller =>
    rw [members_deleted] at hnew
    split at hnew
    · exact absurd rfl hnew
    · exact absurd hold hnew

/-- **Admission control.**  After every run of the group operations, no key is both a member
and banned; and whatever operation comes next, a group that is not public gains a member only
as its creator, or through an invitation by an owner, admin or moderator. -/
theorem admission_control (hashHex : String → String) (ops : List GroupOp) :
    (∀ g m, ¬((run (apply hashHex) GroupDb.empty ops).members.get? (g, m) ≠ none ∧
      (run (apply hashHex) GroupDb.empty ops).bans.get? (g, m) ≠ none)) ∧
    ∀ op g m group,
      (run (apply hashHex) GroupDb.empty ops).members.get? (g, m) = none →
      (apply hashHex (run (apply hashHex) GroupDb.empty ops) op).members.get? (g, m) ≠ none →
      (apply hashHex (run (apply hashHex) GroupDb.empty ops) op).groups.get? g = some group →
      group.visibility ≠ .publicGroup →
      Admits hashHex (run (apply hashHex) GroupDb.empty ops) op g m := by
  refine ⟨?_, fun op g m group hold hnew hgroup hclosed => admits_of_new hold hnew hgroup hclosed⟩
  rintro g m ⟨hmember, hban⟩
  exact hban ((wellFormed_run ops).apart g m hmember)

/-- A call of `key` that no rate limit stops. -/
def callOf (key : IdentityKey) (now : UInt64) : GroupEnv := ⟨.ok key, now, .ok (), fun _ _ => false⟩

/-- Two identities. -/
def ann : IdentityKey := List.replicate 32 1

def ben : IdentityKey := List.replicate 32 2

/-- Ann makes a private group. -/
def privateClub : List GroupOp := [.createGroup (callOf ann 1) "club" none "private"]

/-- Ben gets into it by Ann's invitation. -/
theorem admission_control_invitation :
    Admits id (run (apply id) GroupDb.empty privateClub)
      (.inviteToGroup (callOf ann 2) "club" (Hex.encode ben)) "club" (Hex.encode ben) :=
  (admission_control id privateClub).2
    (.inviteToGroup (callOf ann 2) "club" (Hex.encode ben)) "club"
    (Hex.encode ben) ⟨"club", none, .privateGroup, Hex.encode ann, 1⟩ (by decide +kernel)
    (by decide +kernel) (by rfl) (by decide)

/-! ## Ownership and privilege -/

/-- Every group that exists has exactly one owner. -/
def OneOwner (db : GroupDb) : Prop :=
  ∀ g, db.groups.get? g ≠ none → ∃! m, db.role g m = some .owner

/-- What a call leaves to the members that its caller does not outrank: they are still
members, their role is not lower, and they are not banned.  A caller without a role in the
group outranks nobody there. -/
def Spares (env : GroupEnv) (db db' : GroupDb) : Prop :=
  ∀ g m role, db.role g m = some role →
    (∀ loc, env.identity = .ok loc → m ≠ Hex.encode loc ∧
      ∀ myRole, db.role g (Hex.encode loc) = some myRole → role.rank ≤ myRole.rank) →
    (∃ role', db'.role g m = some role' ∧ role'.rank ≤ role.rank) ∧
      (db'.isBanned g m = true → db.isBanned g m = true)

/-- The environment of a call. -/
def envOf : GroupOp → GroupEnv
  | .createGroup env _ _ _ | .joinGroup env _ | .inviteToGroup env _ _ | .leaveGroup env _
  | .setGroupRole env _ _ _ | .kickMember env _ _ | .banMember env _ _ _
  | .transferOwnership env _ _ | .deleteGroup env _ | .postToGroup env _ _
  | .deleteGroupPost env _ _ | .createPrivateChat env _ _ | .createGroupChat env _
  | .addChatMember env _ _ | .leaveChat env _ | .sendGroupChatMessage env _ _
  | .getChatMessages env _ _ => env

/-- One step as it should be: one owner in every group, and nobody acts upwards. -/
def Safe (hashHex : String → String) (db : GroupDb) (op : GroupOp) : Prop :=
  OneOwner (apply hashHex db op) ∧ Spares (envOf op) db (apply hashHex db op)

/-- The target is not a member, or of a lower role than the caller, or the caller itself
when that is not the owner. -/
def Below (db : GroupDb) (g pubkey : String) (role : GroupRole) (target : String) : Prop :=
  ∀ targetRole, db.role g target = some targetRole →
    role.rank < targetRole.rank ∨ target = pubkey ∧ role ≠ .owner

/-- A `set_group_role` or `ban_member` that its caller is entitled to has a target below the
caller. -/
def Permitted (db : GroupDb) : GroupOp → Prop
  | .setGroupRole env g target newRole => ∀ pubkey role,
      callerRole db env g = .ok (pubkey, role) →
      role.canSetRole (GroupRole.fromStrLossy newRole) = true → Below db g pubkey role target
  | .banMember env g target _ => ∀ pubkey role, callerRole db env g = .ok (pubkey, role) →
      role.canBan = true → Below db g pubkey role target
  | _ => True

theorem oneOwner_empty : OneOwner GroupDb.empty := by
  intro g h
  exact absurd (SqlTable.get?_empty _) h

/-- The same groups with the same owners. -/
theorem OneOwner.of_iff {db' : GroupDb} (h : OneOwner db)
    (hgroups : ∀ g, db'.groups.get? g ≠ none → db.groups.get? g ≠ none)
    (howners : ∀ g m, db'.groups.get? g ≠ none →
      (db'.role g m = some .owner ↔ db.role g m = some .owner)) : OneOwner db' := by
  intro g hg
  obtain ⟨m, hm, huniq⟩ := h g (hgroups g hg)
  refine ⟨m, (howners g m hg).mpr hm, ?_⟩
  intro m' hm'
  exact huniq m' ((howners g m' hg).mp hm')

/-- A plain member does not become the owner. -/
theorem role_addMember_owner (g m : String) (joinedAt : Int64) (invitedBy : Option String)
    (g' m' : String) :
    (db.addMember g m ⟨.member, joinedAt, invitedBy⟩).role g' m' = some .owner ↔
      db.role g' m' = some .owner := by
  rw [GroupDb.role_addMember]
  split
  · rename_i hk
    obtain ⟨rfl, rfl⟩ := Prod.mk.inj hk
    cases db.role g' m' <;> simp
  · rfl

/-- Removing somebody who is not the owner leaves the owners. -/
theorem role_removeMember_owner {g m : String} (h : db.role g m ≠ some .owner) (g' m' : String) :
    (db.removeMember g m).role g' m' = some .owner ↔ db.role g' m' = some .owner := by
  rw [GroupDb.role_removeMember]
  split
  · rename_i hk
    obtain ⟨rfl, rfl⟩ := Prod.mk.inj hk
    simp [h]
  · rfl

/-- A role below the owner's given to somebody who is not the owner leaves the owners. -/
theorem role_updateRole_owner {g m : String} {r : GroupRole} (h : db.role g m ≠ some .owner)
    (hr : r ≠ .owner) (g' m' : String) :
    (db.updateRole g m r).role g' m' = some .owner ↔ db.role g' m' = some .owner := by
  rw [GroupDb.role_updateRole]
  by_cases hk : (g', m') = (g, m)
  · obtain ⟨rfl, rfl⟩ := Prod.mk.inj hk
    cases hrole : db.role g' m' with
    | none => simp
    | some old =>
      have hold : old ≠ .owner := by
        rintro rfl
        exact h hrole
      simp [hr, hold]
  · cases db.role g' m' with
    | none => simp
    | some old => simp [hk]

/-- Somebody below the caller is not the owner. -/
theorem Below.ne_owner {g pubkey target : String} {role : GroupRole}
    (h : Below db g pubkey role target) (hrole : db.role g pubkey = some role) :
    db.role g target ≠ some .owner := by
  intro howner
  rcases h _ howner with hrank | ⟨rfl, hne⟩
  · simp [GroupRole.rank] at hrank
  · exact hne (Option.some.inj (hrole.symm.trans howner))

theorem ne_owner_of_canSetRole {role newRole : GroupRole} (h : role.canSetRole newRole = true) :
    newRole ≠ .owner := by
  rintro rfl
  simp [GroupRole.canSetRole, GroupRole.rank] at h

/-- A new group has no rows yet, so its creator is its only member. -/
theorem OneOwner.create (howner : OneOwner db) (hwf : WellFormed db) {g : String}
    (hgroup : db.groups.get? g = none) (row : GroupRow) (creator : String) (now : Int64) :
    OneOwner { db with
      groups := db.groups.insertOrIgnore g row
      members := db.members.insertOrIgnore (g, creator) ⟨.owner, now, none⟩ } := by
  have hnobody : ∀ m, db.role g m = none := by
    intro m
    by_contra hrole
    refine hwf.member_group g m (fun hnone => hrole ?_) hgroup
    rw [GroupDb.role, hnone]
    rfl
  have hrole : ∀ g' m, (db.addMember g creator ⟨.owner, now, none⟩).role g' m = some .owner ↔
      g' = g ∧ m = creator ∨ g' ≠ g ∧ db.role g' m = some .owner := by
    intro g' m
    rw [GroupDb.role_addMember, hnobody]
    by_cases hg : g' = g
    · subst hg
      by_cases hm : m = creator
      · simp [hm]
      · simp [hm, hnobody]
    · simp [hg]
  intro g' hg'
  by_cases hnew : g' = g
  · refine ⟨creator, (hrole g' creator).mpr (Or.inl ⟨hnew, rfl⟩), ?_⟩
    intro m hm
    rcases (hrole g' m).mp hm with ⟨-, h⟩ | ⟨hne, -⟩
    · exact h
    · exact absurd hnew hne
  · have hold : db.groups.get? g' ≠ none := by
      rw [SqlTable.get?_insertOrIgnore, if_neg hnew] at hg'
      exact hg'
    obtain ⟨m, hm, huniq⟩ := howner g' hold
    refine ⟨m, (hrole g' m).mpr (Or.inr ⟨hnew, hm⟩), ?_⟩
    intro m' hm'
    rcases (hrole g' m').mp hm' with ⟨h, -⟩ | ⟨-, h⟩
    · exact absurd h hnew
    · exact huniq m' h

/-- Ownership moves from the one owner to the new one. -/
theorem OneOwner.transfer (howner : OneOwner db) {g pubkey newOwner : String}
    (hrole : db.role g pubkey = some .owner) (hnew : db.role g newOwner ≠ none) :
    OneOwner ((db.updateRole g pubkey .admin).updateRole g newOwner .owner) := by
  intro g' hg'
  obtain ⟨m, hm, huniq⟩ := howner g' hg'
  by_cases hg : g' = g
  · subst hg
    obtain ⟨r, hr⟩ := Option.ne_none_iff_exists'.mp hnew
    refine ⟨newOwner, by simp [GroupDb.role_updateRole, hr], ?_⟩
    intro m' hm'
    by_contra hne
    -- whoever else is an owner was one before, that is, the caller, who is now an admin
    simp only [GroupDb.role_updateRole, Prod.mk.injEq, true_and, if_neg hne, Option.map_map] at hm'
    obtain ⟨old, hold, hupd⟩ := Option.map_eq_some_iff.mp hm'
    by_cases hcall : m' = pubkey
    · simp [hcall] at hupd
    · simp only [Function.comp_apply, if_neg hcall] at hupd
      rw [hupd] at hold
      exact hcall ((huniq m' hold).trans (huniq pubkey hrole).symm)
  · refine ⟨m, by simpa [GroupDb.role_updateRole, hg] using hm, ?_⟩
    intro m' hm'
    exact huniq m' (by simpa [GroupDb.role_updateRole, hg] using hm')

/-- **One owner.**  A permitted operation leaves every group with exactly one owner. -/
theorem oneOwner_apply (hwf : WellFormed db) (howner : OneOwner db) {op : GroupOp}
    (hperm : Permitted db op) : OneOwner (apply hashHex db op) := by
  have heffect : Effect hashHex db op (apply hashHex db op) := effect_apply db op
  generalize apply hashHex db op = db' at heffect ⊢
  cases heffect with
  | idle h =>
    have hg : db'.groups = db.groups := congrArg (fun t => t.1) h
    have hm : db'.members = db.members := congrArg (fun t => t.2.1) h
    refine howner.of_iff (fun g h => hg ▸ h) (fun g m _ => ?_)
    rw [GroupDb.role, GroupDb.role, hm]
  | created hid hgroup hmember => exact howner.create hwf hgroup _ _ _
  | halfCreated hgroup hmember => exact absurd hgroup (hwf.member_group _ _ hmember)
  | joined hid hgroup hpublic hban =>
    exact howner.of_iff (fun _ h => h) (fun g m _ => role_addMember_owner _ _ _ _ g m)
  | invited hcaller hinvite hban =>
    exact howner.of_iff (fun _ h => h) (fun g m _ => role_addMember_owner _ _ _ _ g m)
  | left hid hrole =>
    exact howner.of_iff (fun _ h => h) (fun g m _ => role_removeMember_owner hrole g m)
  | roleSet hcaller hset =>
    obtain ⟨loc, -, -, hrole⟩ := callerRole_eq_ok.mp hcaller
    have htarget := (hperm _ _ hcaller hset).ne_owner hrole
    exact howner.of_iff (fun _ h => h)
      (fun g m _ => role_updateRole_owner htarget (ne_owner_of_canSetRole hset) g m)
  | @kicked env g target pubkey role hcaller hrank =>
    have htarget : db.role g target ≠ some .owner := by
      intro h
      simp [h, GroupRole.rank] at hrank
    exact howner.of_iff (fun _ h => h) (fun g m _ => role_removeMember_owner htarget g m)
  | banned hcaller hban =>
    obtain ⟨loc, -, -, hrole⟩ := callerRole_eq_ok.mp hcaller
    have htarget := (hperm _ _ hcaller hban).ne_owner hrole
    exact howner.of_iff (fun _ h => h) (fun g m _ => role_removeMember_owner htarget g m)
  | transferred hcaller hnew =>
    obtain ⟨loc, -, -, hrole⟩ := callerRole_eq_ok.mp hcaller
    exact howner.transfer hrole hnew
  | deleted hcaller =>
    refine howner.of_iff (fun g' h => ?_) (fun g' m h => ?_)
    · rw [groups_deleted] at h
      split at h
      · exact absurd rfl h
      · exact h
    · rw [groups_deleted] at h
      split at h
      · exact absurd rfl h
      · rename_i hne
        rw [GroupDb.role, members_deleted, if_neg hne, GroupDb.role]

/-- A row that stays spares its member. -/
theorem spares_of_role_eq {env : GroupEnv} {db' : GroupDb}
    (hrole : ∀ g m role, db.role g m = some role → db'.role g m = some role)
    (hban : ∀ g m, db'.isBanned g m = true → db.isBanned g m = true) : Spares env db db' := by
  intro g m role hm _
  exact ⟨⟨role, hrole g m role hm, le_rfl⟩, hban g m⟩

theorem role_addMember_of_some {g m : String} {row : GroupMemberRow} {g' m' : String}
    {role : GroupRole} (h : db.role g' m' = some role) :
    (db.addMember g m row).role g' m' = some role := by
  rw [GroupDb.role_addMember]
  split
  · rename_i hk
    obtain ⟨rfl, rfl⟩ := Prod.mk.inj hk
    rw [h, Option.getD_some]
  · exact h

/-- Somebody the caller does not outrank is not below the caller. -/
theorem ne_of_below {env : GroupEnv} {g pubkey target : String} {role : GroupRole}
    (hcaller : callerRole db env g = .ok (pubkey, role)) (hbelow : Below db g pubkey role target)
    {m : String} {mRole : GroupRole} (hm : db.role g m = some mRole)
    (hspared : ∀ loc, env.identity = .ok loc → m ≠ Hex.encode loc ∧
      ∀ myRole, db.role g (Hex.encode loc) = some myRole → mRole.rank ≤ myRole.rank) :
    m ≠ target := by
  obtain ⟨loc, hid, rfl, hrole⟩ := callerRole_eq_ok.mp hcaller
  obtain ⟨hne, hrank⟩ := hspared loc hid
  rintro rfl
  rcases hbelow mRole hm with hlt | ⟨hself, -⟩
  · have hle := hrank role hrole
    omega
  · exact hne hself

/-- Members and bans that stay are spared. -/
theorem spares_of_governance_eq {env : GroupEnv} {db' : GroupDb}
    (h : governance db' = governance db) : Spares env db db' := by
  have hm : db'.members = db.members := congrArg (fun t => t.2.1) h
  have hb : db'.bans = db.bans := congrArg (fun t => t.2.2) h
  refine spares_of_role_eq (fun g m role hrole => ?_) (fun g m hban => ?_)
  · rw [GroupDb.role, hm]
    exact hrole
  · rw [GroupDb.isBanned, hb] at hban
    exact hban

section

variable {env : GroupEnv} {g pubkey target : String} {role : GroupRole}

/-- Whoever leaves takes only its own row away. -/
theorem spares_left {loc : IdentityKey} (hid : env.identity = .ok loc) :
    Spares env db (db.removeMember g (Hex.encode loc)) := by
  intro g' m role hm hspared
  obtain ⟨hne, -⟩ := hspared loc hid
  refine ⟨⟨role, ?_, le_rfl⟩, fun h => h⟩
  rw [GroupDb.role_removeMember, if_neg (fun hk => hne (Prod.mk.inj hk).2)]
  exact hm

theorem spares_roleSet (hcaller : callerRole db env g = .ok (pubkey, role))
    (hbelow : Below db g pubkey role target) (newRole : GroupRole) :
    Spares env db (db.updateRole g target newRole) := by
  intro g' m mRole hm hspared
  refine ⟨⟨mRole, ?_, le_rfl⟩, fun h => h⟩
  rw [GroupDb.role_updateRole, hm, Option.map_some]
  split
  · rename_i hk
    obtain ⟨rfl, rfl⟩ := Prod.mk.inj hk
    exact absurd rfl (ne_of_below hcaller hbelow hm hspared)
  · rfl

/-- The check of `kick_member` on the role of its target. -/
theorem below_of_rank_lt (hrank : role.rank < ((db.role g target).getD .member).rank) :
    Below db g pubkey role target := by
  intro targetRole h
  rw [h, Option.getD_some] at hrank
  exact Or.inl hrank

theorem spares_kicked (hcaller : callerRole db env g = .ok (pubkey, role))
    (hbelow : Below db g pubkey role target) : Spares env db (db.removeMember g target) := by
  intro g' m mRole hm hspared
  refine ⟨⟨mRole, ?_, le_rfl⟩, fun h => h⟩
  rw [GroupDb.role_removeMember]
  split
  · rename_i hk
    obtain ⟨rfl, rfl⟩ := Prod.mk.inj hk
    exact absurd rfl (ne_of_below hcaller hbelow hm hspared)
  · exact hm

theorem spares_banned (hcaller : callerRole db env g = .ok (pubkey, role))
    (hbelow : Below db g pubkey role target) (row : GroupBanRow) :
    Spares env db
      { db.removeMember g target with bans := db.bans.insertOrReplace (g, target) row } := by
  intro g' m mRole hm hspared
  have hne : (g', m) ≠ (g, target) := by
    rintro hk
    obtain ⟨rfl, rfl⟩ := Prod.mk.inj hk
    exact ne_of_below hcaller hbelow hm hspared rfl
  refine ⟨⟨mRole, ?_, le_rfl⟩, fun h => ?_⟩
  · have hkept := GroupDb.role_removeMember db g target g' m
    rw [if_neg hne, hm] at hkept
    exact hkept
  · rw [GroupDb.isBanned, SqlTable.get?_insertOrReplace, if_neg hne] at h
    exact h

/-- The old owner steps back itself, and the new one rises. -/
theorem spares_transferred (hcaller : callerRole db env g = .ok (pubkey, .owner))
    (newOwner : String) :
    Spares env db ((db.updateRole g pubkey .admin).updateRole g newOwner .owner) := by
  obtain ⟨loc, hid, rfl, hrole⟩ := callerRole_eq_ok.mp hcaller
  intro g' m mRole hm hspared
  obtain ⟨hne, -⟩ := hspared loc hid
  refine ⟨?_, fun h => h⟩
  rw [GroupDb.role_updateRole, GroupDb.role_updateRole, hm, Option.map_some, Option.map_some,
    if_neg (fun hk => hne (Prod.mk.inj hk).2)]
  split
  · exact ⟨.owner, rfl, Nat.zero_le _⟩
  · exact ⟨mRole, rfl, le_rfl⟩

/-- Whom the owner does not outrank is the owner. -/
theorem spares_deleted (hwf : WellFormed db) (howner : OneOwner db)
    (hcaller : callerRole db env g = .ok (pubkey, .owner)) :
    Spares env db (GroupOp.deleted db g) := by
  have hgroup := hwf.group_of_caller hcaller
  obtain ⟨loc, hid, rfl, hrole⟩ := callerRole_eq_ok.mp hcaller
  intro g' m mRole hm hspared
  obtain ⟨hne, hrank⟩ := hspared loc hid
  have hg : g' ≠ g := by
    rintro rfl
    have hrole' : mRole = .owner := GroupRole.eq_owner_of_rank_le (hrank _ hrole)
    exact hne ((howner g' hgroup).unique (hrole' ▸ hm) hrole)
  refine ⟨⟨mRole, ?_, le_rfl⟩, fun h => ?_⟩
  · rw [GroupDb.role, members_deleted, if_neg hg]
    exact hm
  · rw [GroupDb.isBanned, bans_deleted, if_neg hg] at h
    exact h

end

/-- **Nobody acts upwards** in a permitted operation. -/
theorem spares_apply (hwf : WellFormed db) (howner : OneOwner db) {op : GroupOp}
    (hperm : Permitted db op) : Spares (envOf op) db (apply hashHex db op) := by
  have heffect : Effect hashHex db op (apply hashHex db op) := effect_apply db op
  generalize apply hashHex db op = db' at heffect ⊢
  cases heffect with
  | idle h => exact spares_of_governance_eq h
  | created hid hgroup hmember =>
    exact spares_of_role_eq (fun _ _ _ h => role_addMember_of_some h) (fun _ _ h => h)
  | halfCreated hgroup hmember => exact spares_of_role_eq (fun _ _ _ h => h) (fun _ _ h => h)
  | joined hid hgroup hpublic hban =>
    exact spares_of_role_eq (fun _ _ _ h => role_addMember_of_some h) (fun _ _ h => h)
  | invited hcaller hinvite hban =>
    exact spares_of_role_eq (fun _ _ _ h => role_addMember_of_some h) (fun _ _ h => h)
  | left hid hrole => exact spares_left hid
  | roleSet hcaller hset => exact spares_roleSet hcaller (hperm _ _ hcaller hset) _
  | kicked hcaller hrank => exact spares_kicked hcaller (below_of_rank_lt hrank)
  | banned hcaller hban => exact spares_banned hcaller (hperm _ _ hcaller hban) _
  | transferred hcaller hnew => exact spares_transferred hcaller _
  | deleted hcaller => exact spares_deleted hwf howner hcaller

/-- A call that takes a member out of its place, or gives it a lower role, is unsafe unless
the member is below the caller. -/
theorem below_of_safe (howner : OneOwner db) {env : GroupEnv} {g pubkey target : String}
    {role : GroupRole} {db' : GroupDb} (hcaller : callerRole db env g = .ok (pubkey, role))
    (hsafe : OneOwner db' ∧ Spares env db db') (hgroup : db.groups.get? g ≠ none)
    (hgroups : db'.groups = db.groups)
    (hlost : ∀ role', db'.role g target = some role' → role.rank < role'.rank)
    (hothers : ∀ m, m ≠ target → db'.role g m = db.role g m) : Below db g pubkey role target := by
  obtain ⟨loc, hid, rfl, hrole⟩ := callerRole_eq_ok.mp hcaller
  intro targetRole htarget
  by_contra hnot
  rw [not_or, not_lt] at hnot
  obtain ⟨hle, hself⟩ := hnot
  by_cases hme : target = Hex.encode loc
  · -- the owner gives up its own role, and nobody else has it
    have howns : role = .owner := by
      by_contra hne
      exact hself ⟨hme, hne⟩
    subst howns
    obtain ⟨m, hm, -⟩ := hsafe.1 g (hgroups ▸ hgroup)
    by_cases hmt : m = target
    · have hlt := hlost .owner (hmt ▸ hm)
      omega
    · rw [hothers m hmt] at hm
      exact hmt (((howner g hgroup).unique hm hrole).trans hme.symm)
  · -- somebody else of equal or higher role is lowered or removed
    have hspared : ∀ loc', env.identity = .ok loc' → target ≠ Hex.encode loc' ∧
        ∀ myRole, db.role g (Hex.encode loc') = some myRole → targetRole.rank ≤ myRole.rank := by
      intro loc' hid'
      obtain rfl := Except.ok.inj (hid.symm.trans hid')
      refine ⟨hme, fun myRole hmy => ?_⟩
      rw [← Option.some.inj (hrole.symm.trans hmy)]
      exact hle
    obtain ⟨⟨role', hrole', hrank⟩, -⟩ := hsafe.2 g target targetRole htarget hspared
    have hlt := hlost role' hrole'
    omega

/-- **Exactly the permitted operations are safe**, in a state as it should be. -/
theorem safe_iff_permitted (hwf : WellFormed db) (howner : OneOwner db) (op : GroupOp) :
    Safe hashHex db op ↔ Permitted db op := by
  constructor
  · intro hsafe
    cases op with
    | setGroupRole env g target newRole =>
      intro pubkey role hcaller hset
      have hgroup := hwf.group_of_caller hcaller
      unfold Safe at hsafe
      simp only [apply_setGroupRole, onCaller, hcaller, if_pos hset, envOf] at hsafe
      refine below_of_safe howner hcaller hsafe hgroup rfl ?_ ?_
      · intro role' h
        rw [GroupDb.role_updateRole] at h
        obtain ⟨old, -, hold⟩ := Option.map_eq_some_iff.mp h
        rw [if_pos rfl] at hold
        rw [← hold]
        simpa [GroupRole.canSetRole] using hset
      · intro m hm
        rw [GroupDb.role_updateRole]
        simp only [Prod.mk.injEq, true_and, if_neg hm, Option.map_id_fun', id]
    | banMember env g target reason =>
      intro pubkey role hcaller hban
      have hgroup := hwf.group_of_caller hcaller
      unfold Safe at hsafe
      simp only [apply_banMember, onCaller, hcaller, if_pos hban, envOf] at hsafe
      refine below_of_safe howner hcaller hsafe hgroup rfl ?_ ?_
      · intro role' h
        have hgone := GroupDb.role_removeMember db g target g target
        rw [if_pos rfl] at hgone
        exact absurd (hgone.symm.trans h) (by simp)
      · intro m hm
        have hkept := GroupDb.role_removeMember db g target g m
        rwa [if_neg (fun hk => hm (Prod.mk.inj hk).2)] at hkept
    | _ => trivial
  · intro hperm
    exact ⟨oneOwner_apply hwf howner hperm, spares_apply hwf howner hperm⟩

/-- **Ownership and privilege over runs.**  In a run of group operations, every step leaves
exactly one owner in every group and spares everybody of equal or higher role, exactly when
every `set_group_role` and every `ban_member` of the run has a target below its caller. -/
theorem run_safe_iff_permitted (hashHex : String → String) (ops : List GroupOp) :
    Meets (apply hashHex) (Safe hashHex) GroupDb.empty ops ↔
      Meets (apply hashHex) Permitted GroupDb.empty ops := by
  have hgen : ∀ (ops : List GroupOp) (db : GroupDb), WellFormed db → OneOwner db →
      (Meets (apply hashHex) (Safe hashHex) db ops ↔ Meets (apply hashHex) Permitted db ops) := by
    intro ops
    induction ops with
    | nil => exact fun _ _ _ => Iff.rfl
    | cons op ops ih =>
      intro db hwf howner
      have hstep : Safe hashHex db op ↔ Permitted db op := safe_iff_permitted hwf howner op
      constructor
      · rintro ⟨hsafe, hrest⟩
        exact ⟨hstep.mp hsafe, (ih _ (wellFormed_apply hwf op) hsafe.1).mp hrest⟩
      · rintro ⟨hperm, hrest⟩
        have howner' : OneOwner (apply hashHex db op) := oneOwner_apply hwf howner hperm
        exact ⟨hstep.mpr hperm, (ih _ (wellFormed_apply hwf op) howner').mpr hrest⟩
  exact hgen ops GroupDb.empty wellFormed_empty oneOwner_empty

/-- Ann makes a group and makes Ben a moderator of it, and Ben makes Ann a plain member. -/
def deposition : List GroupOp :=
  [.createGroup (callOf ann 1) "club" none "public", .joinGroup (callOf ben 2) "club",
    .setGroupRole (callOf ann 3) "club" (Hex.encode ben) "moderator",
    .setGroupRole (callOf ben 4) "club" (Hex.encode ann) "member"]

/-- The group is left without an owner. -/
theorem deposition_unsafe : ¬Meets (apply id) (Safe id) GroupDb.empty deposition := by
  rintro ⟨-, -, -, ⟨howner, -⟩, -⟩
  obtain ⟨m, hm, -⟩ := howner "club" (by decide +kernel)
  obtain ⟨row, hrow, hrole⟩ := GroupDb.role_eq_some_iff.mp hm
  have hnone : ∀ r ∈ (run (apply id) GroupDb.empty deposition).members.rows,
      r.2.role ≠ .owner := by
    decide +kernel
  exact hnone _ (SqlTable.mem_rows_iff.mpr hrow) hrole

end GroupGovernance
