import PacketBalance.LbState.Closed
/-!
# Memberships and their health

What an operation does to the health of a VIP's members.  An operation other than
`report_health` leaves the health and the incarnation of a member it keeps alone, and
gives one that it adds an incarnation that no target carries yet.
-/

namespace PacketBalance

open WriteLog Std

def Health.fresh : Health := ⟨true, 0, 0⟩

/-- One more probe: `rise` successes in a row bring a member up, `fall` failures in a
row take it down. -/
def Health.probe (h : Health) (ok : Bool) (rise fall : UInt32) : Health :=
  if ok then ⟨h.up || decide (rise ≤ h.consecutiveOk + 1), h.consecutiveOk + 1, 0⟩
  else ⟨h.up && !decide (fall ≤ h.consecutiveFail + 1), 0, h.consecutiveFail + 1⟩

namespace LbState

def memberAt (lb : LbState) (spec : VipSpec) (a : UInt32) : Option Member :=
  (lb.membersAt spec)[a]?

theorem memberAt_eq {lb : LbState} {spec : VipSpec} {v : Vip} (hv : lb.vips[spec]? = some v)
    (a : UInt32) : lb.memberAt spec a = v.members[a]? := by
  rw [memberAt, membersAt_eq hv]

theorem exists_of_memberAt {lb : LbState} {spec : VipSpec} {a : UInt32} {m : Member}
    (h : lb.memberAt spec a = some m) :
    ∃ v, lb.vips[spec]? = some v ∧ v.members[a]? = some m := by
  cases hv : lb.vips[spec]? with
  | none => simp [memberAt, membersAt, hv] at h
  | some v => exact ⟨v, rfl, by rwa [memberAt_eq hv] at h⟩

theorem memberAt_insert (lb : LbState) (spec s : VipSpec) (v : Vip) (a : UInt32) :
    { lb with vips := lb.vips.insert spec v }.memberAt s a =
      if s = spec then v.members[a]? else lb.memberAt s a := by
  simp only [memberAt, membersAt, OrdMap.getElem?_insert]
  split_ifs <;> rfl

theorem memberAt_erase (lb : LbState) (spec s : VipSpec) (a : UInt32) :
    { lb with vips := lb.vips.erase spec }.memberAt s a =
      if s = spec then none else lb.memberAt s a := by
  simp only [memberAt, membersAt, OrdMap.getElem?_erase]
  split_ifs <;> simp

/-! ## How memberships evolve -/

/-- From `lb` to `lb'` no membership of `K` is lost, and only those are added. -/
structure Evolved (K : VipSpec → UInt32 → Prop) (lb lb' : LbState) : Prop where
  clock : lb.nextIncarnation ≤ lb'.nextIncarnation
  kept : ∀ s a, K s a → lb'.memberAt s a = none → lb.memberAt s a = none
  member : ∀ s a m', lb'.memberAt s a = some m' →
    (∃ m, lb.memberAt s a = some m ∧ m'.mark = m.mark) ∨
    (lb.memberAt s a = none ∧ K s a ∧ m'.health = .fresh ∧
      lb.nextIncarnation ≤ m'.incarnation ∧ m'.incarnation < lb'.nextIncarnation)

section Evolution

variable {K : VipSpec → UInt32 → Prop} {lb₀ lb lb' : LbState} {env : Env}
variable {spec : VipSpec} {v v' : Vip}

theorem Evolved.refl (lb : LbState) : Evolved K lb lb :=
  ⟨le_rfl, fun _ _ _ h => h, fun _ _ m' h => .inl ⟨m', h, rfl⟩⟩

theorem Evolved.trans (h₀ : Evolved K lb₀ lb) (h : Evolved K lb lb') : Evolved K lb₀ lb' := by
  refine ⟨h₀.clock.trans h.clock, fun s a hK hnone => h₀.kept s a hK (h.kept s a hK hnone), ?_⟩
  intro s a m' hm'
  rcases h.member s a m' hm' with ⟨m, hm, hmark⟩ | ⟨hnone, hK, hfresh, hlo, hhi⟩
  · have hhealth : m'.health = m.health := congrArg Prod.fst hmark
    have hinc : m'.incarnation = m.incarnation := congrArg Prod.snd hmark
    rcases h₀.member s a m hm with ⟨m₀, hm₀, hmark₀⟩ | ⟨hnone, hK, hfresh, hlo, hhi⟩
    · exact .inl ⟨m₀, hm₀, hmark.trans hmark₀⟩
    · exact .inr ⟨hnone, hK, hhealth.trans hfresh, hinc ▸ hlo, hinc ▸ hhi.trans_le h.clock⟩
  · exact .inr ⟨h₀.kept s a hK hnone, hK, hfresh, h₀.clock.trans hlo, hhi⟩

theorem Evolved.of_mark (hclock : lb.nextIncarnation ≤ lb'.nextIncarnation)
    (h : ∀ s a, (lb'.memberAt s a).map Member.mark = (lb.memberAt s a).map Member.mark) :
    Evolved K lb lb' := by
  refine ⟨hclock, fun s a _ hnone => ?_, fun s a m' hm' => ?_⟩
  · have := h s a
    rw [hnone, Option.map_none] at this
    exact Option.map_eq_none_iff.mp this.symm
  · have := h s a
    rw [hm', Option.map_some] at this
    obtain ⟨m, hm, hmark⟩ := Option.map_eq_some_iff.mp this.symm
    exact .inl ⟨m, hm, hmark.symm⟩

theorem Evolved.put (hv : lb.vips[spec]? = some v)
    (h : ∀ a : UInt32, v'.members[a]?.map Member.mark = v.members[a]?.map Member.mark) :
    Evolved K lb { lb with vips := lb.vips.insert spec v' } := by
  refine .of_mark le_rfl fun s a => ?_
  rw [memberAt_insert]
  split_ifs with hs
  · rw [hs, memberAt_eq hv, h a]
  · rfl

theorem Evolved.add (hv : lb.vips[spec]? = some v) {a : UInt32} (hin : a ∉ v.members)
    (hK : K spec a) {weight : Nat}
    (hlb' : lb' = { lb with
      nextIncarnation := lb.nextIncarnation + 1
      vips := lb.vips.insert spec
        { v with members := v.members.insert a (newMember env weight lb.nextIncarnation) } }) :
    Evolved K lb lb' := by
  have hat : ∀ s b, lb'.memberAt s b =
      if s = spec ∧ b = a then some (newMember env weight lb.nextIncarnation)
      else lb.memberAt s b := by
    intro s b
    rw [hlb']
    refine (memberAt_insert lb spec s _ b).trans ?_
    by_cases hs : s = spec
    · subst hs
      simp only [if_true, true_and, OrdMap.getElem?_insert, memberAt_eq hv]
    · simp only [hs, if_false, false_and]
  have hnone : lb.memberAt spec a = none := by
    rw [memberAt_eq hv]
    exact OrdMap.notMem_iff.mp hin
  have hclock : lb'.nextIncarnation = lb.nextIncarnation + 1 := by rw [hlb']
  refine ⟨by omega, fun s b _ hb => ?_, fun s b m' hm' => ?_⟩
  · rw [hat] at hb
    split_ifs at hb with hsb
    exact hb
  · rw [hat] at hm'
    split_ifs at hm' with hsb
    · obtain ⟨rfl, rfl⟩ := hsb
      obtain rfl := Option.some.inj hm'
      exact .inr ⟨hnone, hK, rfl, le_rfl, by simp [newMember, hclock]⟩
    · exact .inl ⟨m', hm', rfl⟩

theorem Evolved.drop (hclock : lb'.nextIncarnation = lb.nextIncarnation)
    (h : ∀ s a, lb'.memberAt s a = lb.memberAt s a ∨ (¬K s a ∧ lb'.memberAt s a = none)) :
    Evolved K lb lb' := by
  refine ⟨hclock.ge, fun s a hK hnone => ?_, fun s a m' hm' => ?_⟩
  · rcases h s a with heq | ⟨hnot, -⟩
    · exact heq ▸ hnone
    · exact absurd hK hnot
  · rcases h s a with heq | ⟨-, hnone⟩
    · exact .inl ⟨m', heq ▸ hm', rfl⟩
    · simp [hnone] at hm'

theorem Evolved.enter (id : Nat) (flags : UInt32) :
    Evolved K lb { lb with vips := lb.vips.insertIfNew spec { spec, id, flags } } := by
  refine .of_mark le_rfl fun s a => congrArg (Option.map Member.mark) ?_
  simp only [memberAt, membersAt, OrdMap.getElem?_insertIfNew]
  split_ifs with hs
  · obtain ⟨rfl, hnot⟩ := hs
    simp [OrdMap.notMem_iff.mp hnot]
  · rfl

theorem Evolved.leave (hv : lb.vips[spec]? = some v) {a : UInt32} (hK : ¬K spec a) :
    Evolved K lb
      { lb with vips := lb.vips.insert spec { v with members := v.members.erase a } } := by
  refine .drop rfl fun s b => ?_
  rw [memberAt_insert]
  by_cases hs : s = spec
  · subst hs
    simp only [if_true, OrdMap.getElem?_erase, memberAt_eq hv]
    by_cases hb : b = a
    · exact .inr ⟨hb ▸ hK, if_pos hb⟩
    · exact .inl (if_neg hb)
  · exact .inl (if_neg hs)

theorem Evolved.remove (hK : ∀ a, ¬K spec a) :
    Evolved K lb { lb with vips := lb.vips.erase spec } := by
  refine .drop rfl fun s a => ?_
  rw [memberAt_erase]
  split_ifs with hs
  · exact .inr ⟨hs ▸ hK a, rfl⟩
  · exact .inl rfl

theorem Evolved.congr (h : Evolved K lb₀ lb) (hvips : lb'.vips = lb.vips)
    (hclock : lb'.nextIncarnation = lb.nextIncarnation) : Evolved K lb₀ lb' := by
  refine h.trans (.of_mark hclock.ge fun s a => ?_)
  rw [memberAt, memberAt, membersAt, membersAt, hvips]

theorem Evolved.preserves_onReals {α : Type} (m : TableM α) :
    Preserves (fun _ => Evolved K lb₀) (onReals m) :=
  Preserves.zoom (fun _ _ h => h.congr rfl rfl) m

theorem Evolved.closed : Closed env K (fun _ => Evolved K lb₀) where
  edit h hv hmark := h.trans (.put hv hmark)
  tick h := h.trans (.of_mark (Nat.le_succ _) fun _ _ => rfl)
  join weight h hv hK hin := h.trans (.add hv hin hK rfl)
  leave h hv hK := h.trans (.leave hv hK)
  enter spec id flags h := h.trans (.enter id flags)
  remove h hK := h.trans (.remove hK)
  ids _ h := h.congr rfl rfl
  other h _ := h
  acquire a := preserves_onReals _
  release a := preserves_onReals _
  ask _ := by
    refine Preserves.of_get.bind fun lb => .ite (fun _ => .of_pure _) fun _ => ?_
    split
    · exact .of_pure _
    · exact (preserves_onReals _).bind fun _ => .of_pure _

theorem Evolved.preserves_apply {cfg : Config} (hok : cfg.Ok) :
    Preserves (fun _ => Evolved (Lists cfg) lb₀) (apply env cfg) := by
  intro d lb h
  refine Evolved.closed.wp_apply hok (preserves_onReals _) (fun _ _ h => h.congr rfl rfl)
    (fun _ _ h => h) ?_
  have hadopt : Preserves (fun _ => Evolved (Lists cfg) lb₀) adoptLocked :=
    (preserves_onReals _).bind fun _ => Preserves.of_durable.bind fun _ =>
      .of_modify fun _ _ h => h.congr rfl rfl
  have hconfig : Preserves (fun _ => Evolved (Lists cfg) lb₀) (writeConfigMap env cfg) :=
    Closed.preserves_writeConfigMap (fun h _ => h) cfg
  exact wp_imp ((hadopt.when.bind fun _ => hconfig) d lb h) fun _ _ _ h => h.congr rfl rfl

theorem Evolved.preserves_neighborResolved (ip : UInt32) (mac : NeighMac) :
    Preserves (fun _ => Evolved K lb₀) (neighborResolved env ip mac) := by
  refine Evolved.closed.preserves_neighborResolved fun d lb h => ?_
  have hset : Preserves (fun _ => Evolved K lb₀)
      (Prog.fold (lb.resolvedAddrs ip) [] (setOne env mac.mac)) :=
    .fold fun a _ newly => Preserves.of_get.bind fun _ => (preserves_onReals _).bind
      fun _ => .of_pure _
  exact hset d lb h

end Evolution

end LbState

end PacketBalance
