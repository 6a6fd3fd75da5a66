import PacketBalance.LbState.Invariant
/-!
# Rings and members

What `rebuild_locked`, `add_member_locked` and the loops over members do to a
consistent model and its maps.
-/

namespace PacketBalance

open WriteLog Std

namespace LbState

variable {pend : List UInt32} {lb : LbState} {d : CtlMaps} {env : Env}
variable {G : CtlMaps → MapWrite → Prop}

/-! ## Changing one VIP -/

theorem Consistent.replace (h : Consistent pend lb d) {spec : VipSpec} {v v' : Vip}
    (hv : lb.vips[spec]? = some v) {pend' : List UInt32} {lb' : LbState} {d' : CtlMaps}
    (hvips : lb'.vips = lb.vips.insert spec v') (hspec : v'.spec = v.spec)
    (hid : v'.id = v.id) (hadopted : lb'.adoptedVipIds = lb.adoptedVipIds) (ht : lb'.reals.Sound d')
    (hmap : ∀ (s : VipSpec) (val : VipValue), d'.vipMap[s]? = some val →
      d.vipMap[s]? = some val ∨ (s = spec ∧ val.vipId = v.id))
    (hheld : ∀ a, owed pend' (lb.vips.insert spec v') a ≤ lb'.reals.refsOf a) :
    Consistent pend' lb' d' := by
  have hnamed : ∀ s id, lb'.Named s id ↔ lb.Named s id := by
    intro s id
    simp only [Named, hvips, hadopted, OrdMap.getElem?_insert]
    by_cases hs : s = spec
    · subst hs
      simp [hv, hid]
    · simp [hs]
  refine ⟨ht, ?_, ?_, ?_, ?_, ?_, by rw [hvips]; exact hheld⟩
  · intro s u hu
    rw [hvips, OrdMap.getElem?_insert] at hu
    split_ifs at hu with hs
    · rw [← Option.some.inj hu, hspec, h.key spec v hv, hs]
    · exact h.key s u hu
  · intro s id hs
    exact h.named_lt s id ((hnamed s id).mp hs)
  · intro s s' id hs hs'
    exact h.named_inj s s' id ((hnamed s id).mp hs) ((hnamed s' id).mp hs')
  · intro s id id' hs hs'
    exact h.named_fun s id id' ((hnamed s id).mp hs) ((hnamed s id').mp hs')
  · intro s val hval
    rw [hnamed]
    rcases hmap s val hval with hold | ⟨rfl, hvid⟩
    · exact h.entry_named s val hold
    · exact .inl ⟨v, hv, hvid.symm⟩

theorem Consistent.edit (h : Consistent pend lb d) {spec : VipSpec} {v : Vip}
    (hv : lb.vips[spec]? = some v) (v' : Vip) (hspec : v'.spec = v.spec) (hid : v'.id = v.id)
    (hmem : ∀ a, a ∈ v'.members ↔ a ∈ v.members) {d' : CtlMaps} (hreals : d'.reals = d.reals)
    (hneigh : d'.neigh = d.neigh) (hmap : d'.vipMap = d.vipMap) :
    Consistent pend { lb with vips := lb.vips.insert spec v' } d' := by
  refine h.replace hv rfl hspec hid rfl (h.table.congr hreals hneigh) ?_ fun a => ?_
  · exact fun s val hval => .inl (hmap ▸ hval)
  · have hheld := h.held a
    simp only [owed, holders_insert, hmem] at hheld ⊢
    split_ifs with ha
    · rwa [Finset.insert_eq_of_mem (mem_holders.mpr ⟨v, hv, ha⟩)]
    · exact Nat.le_trans (Nat.add_le_add_right (Finset.card_erase_le) _) hheld

/-! ## rebuild_locked -/

def ringOf (lb : LbState) (v : Vip) (slots : List Nat) : InstalledRing :=
  ⟨slots, lb.backendsOf v, lb.hash⟩

theorem backendsOf_markInRing (lb : LbState) (v : Vip) :
    lb.backendsOf (lb.markInRing v) = lb.backendsOf v := by
  simp only [backendsOf, markInRing, ExtTreeMap.toList_map, List.map_map]
  rfl

theorem rebuild_spec (h : Consistent pend lb d) {spec : VipSpec} {v : Vip}
    (hv : lb.vips[spec]? = some v)
    (hG : ∀ slots, buildRing (lb.backendsOf v) lb.hash pbRingSize = .ok slots →
      G d (.ringSwap v.id (lb.ringOf v slots))) :
    wp (rebuildLocked env spec) G
      (fun _ d' lb' => Consistent pend lb' d' ∧ env.ringFault v.id = none ∧ ∃ slots,
        buildRing (lb.backendsOf v) lb.hash pbRingSize = .ok slots ∧
        d' = { d with rings := Function.update d.rings v.id (some (lb.ringOf v slots)) } ∧
        lb' = { lb with
          vips := lb.vips.insert spec
            { lb.markInRing v with generation := v.generation + 1 } })
      (fun err d' lb' => Consistent pend lb' d' ∧ d' = d ∧
        lb' = { lb with vips := lb.vips.insert spec (lb.markInRing v) } ∧
        ∃ fault, env.ringFault v.id = some fault ∧ err = .runtime (fault.text v.id)) d lb := by
  obtain ⟨slots, hslots, hlen⟩ := h.buildRing_ok hv lb.hash
  have hids : ((lb.markInRing v).members.keys.any fun addr => (lb.reals.idOf addr).isNone)
      = false := by
    rw [List.any_eq_false]
    intro a ha
    have hmem : a ∈ v.members := by simpa [markInRing] using ha
    obtain ⟨e, he⟩ := h.member_entry hv hmem
    simp [RealTable.idOf_eq, he]
  have hmark : ∀ (generation : Nat) {d' : CtlMaps}, d'.reals = d.reals → d'.neigh = d.neigh →
      d'.vipMap = d.vipMap → Consistent pend { lb with
        vips := lb.vips.insert spec { lb.markInRing v with generation } } d' :=
    fun generation => h.edit hv { lb.markInRing v with generation } rfl rfl
      (by simp [markInRing])
  simp only [rebuildLocked, vipAt, putVip, wp_bind, wp_get, hv, wp_pure, wp_modify, hids,
    Bool.false_eq_true, if_false, backendsOf_markInRing, hslots, installRing, hlen, ne_eq,
    not_true_eq_false]
  have hid : (lb.markInRing v).id = v.id := rfl
  cases hfault : env.ringFault v.id with
  | some fault =>
      simp only [hid, hfault, wp_throw, true_and]
      exact ⟨hmark v.generation rfl rfl rfl, fault, rfl, rfl⟩
  | none =>
      simp only [hid, hfault, wp_emit, write_ringSwap, OrdMap.insert_insert, true_and]
      exact ⟨hG slots hslots, hmark (v.generation + 1) rfl rfl rfl, slots, rfl, rfl, rfl⟩

/-! ## add_member_locked -/

/-- What the neighbour table answers when an address joins a VIP. -/
def answer (env : Env) (lb : LbState) (spec : VipSpec) (a : UInt32) : Option Mac :=
  (env.macLookup spec a (lb.nextHop.getD a)).map NeighMac.mac

theorem refsOf_update {t t' : RealTable} {a : UInt32} {o : Option RealTable.Entry}
    (h : t'.entry = Function.update t.entry a o) (b : UInt32) :
    t'.refsOf b = if b = a then o.elim 0 RealTable.Entry.refs else t.refsOf b := by
  by_cases hb : b = a
  · subst hb
    simp [RealTable.refsOf, h]
  · simp [RealTable.refsOf, h, hb]

theorem askNeighbor_spec (lb : LbState) (henv : ArrayOk env) (ht : lb.reals.Sound d)
    {spec : VipSpec} {a : UInt32} {e : RealTable.Entry} (he : lb.reals.entry a = some e)
    (hG : e.mac = none → ∀ d w, SlotWrite d w → G d w) :
    wp (askNeighbor env spec a) G
      (fun _ d' lb' => d.SameElse d' ∧ ∃ t, t.Sound d' ∧
        t.entry = Function.update lb.reals.entry a
          (some { e with mac := e.mac.or (answer env lb spec a) }) ∧
        lb' = { lb with reals := t })
      (fun _ _ _ => False) d lb := by
  have hmacOf : lb.reals.macOf a = e.mac := by simp [RealTable.macOf_eq, he]
  have hsame : Function.update lb.reals.entry a (some e) = lb.reals.entry := by
    rw [← he, Function.update_eq_self]
  simp only [askNeighbor, wp_bind, wp_get, hmacOf]
  cases hmac : e.mac with
  | some m =>
      simp only [Option.isSome_some, if_true, wp_pure]
      refine ⟨.refl d, lb.reals, ht, ?_, rfl⟩
      rw [Option.some_or, ← hmac, hsame]
  | none =>
      simp only [Option.isSome_none, Bool.false_eq_true, if_false, answer, Option.none_or]
      cases hans : env.macLookup spec a (lb.nextHop.getD a) with
      | none =>
          simp only [wp_pure, Option.map_none]
          refine ⟨.refl d, lb.reals, ht, ?_, rfl⟩
          rw [← hmac, hsame]
      | some mac =>
          simp only [onReals, wp_bind, wp_zoom, wp_pure, Option.map_some]
          refine wp_mono (RealTable.setMac_spec henv ht he mac.ne_zero (by simp [hmac])
            (hG hmac)) (fun _ _ hw => hw) ?_ (fun _ _ _ h => h)
          rintro _ d' t ⟨-, ht', hsame', hentry⟩
          exact ⟨hsame', t, ht', hentry, rfl⟩

theorem Consistent.join (h : Consistent pend lb d) {spec : VipSpec} {v v' : Vip}
    (hv : lb.vips[spec]? = some v) {lb' : LbState} {d' : CtlMaps}
    (hvips : lb'.vips = lb.vips.insert spec v') (hspec : v'.spec = v.spec)
    (hid : v'.id = v.id) {a : UInt32} (hmem : ∀ b, b ∈ v'.members ↔ b = a ∨ b ∈ v.members)
    (hadopted : lb'.adoptedVipIds = lb.adoptedVipIds) (ht : lb'.reals.Sound d')
    (hsame : d.SameElse d') {e : RealTable.Entry}
    (hentry : lb'.reals.entry = Function.update lb.reals.entry a (some e))
    (hrefs : e.refs = lb.reals.refsOf a + 1) : Consistent pend lb' d' := by
  refine h.replace hv hvips hspec hid hadopted ht ?_ fun b => ?_
  · intro s val hval
    rw [hsame.vipMap] at hval
    exact .inl hval
  · have hheld := h.held b
    rw [refsOf_update hentry]
    simp only [owed, holders_insert, hmem] at hheld ⊢
    by_cases hb : b = a
    · subst hb
      have hcard := Finset.card_insert_le spec (holders lb.vips b)
      simp only [true_or, if_true, Option.elim_some, hrefs]
      omega
    · simp only [hb, false_or, if_false]
      split_ifs with hmemb
      · rw [Finset.insert_eq_of_mem (mem_holders.mpr ⟨v, hv, hmemb⟩)]
        exact hheld
      · exact Nat.le_trans (Nat.add_le_add_right (Finset.card_erase_le) _) hheld

theorem addMember_spec (henv : ArrayOk env) (h : Consistent pend lb d) {spec : VipSpec}
    {v : Vip} (hv : lb.vips[spec]? = some v) {a : UInt32} (ha : a ≠ 0) (hnew : a ∉ v.members)
    (weight : Nat)
    (hG : lb.reals.macOf a = none → ∀ d w, SlotWrite d w → G d w) :
    wp (addMemberLocked env spec a weight) G
      (fun _ d' lb' => Consistent pend lb' d' ∧ d.SameElse d' ∧ ∃ t e,
        t.entry = Function.update lb.reals.entry a (some e) ∧
        RealTable.Joined (lb.reals.entry a) (answer env lb spec a) e ∧
        (lb.reals.entry a = none → lb.reals.nextId = some e.id) ∧
        lb' = { lb with
          reals := t
          nextIncarnation := lb.nextIncarnation + 1
          vips := lb.vips.insert spec
            { v with
              members := v.members.insert a (newMember env weight lb.nextIncarnation) } })
      (fun err d' lb' => err = RealTable.tooManyReals ∧ d' = d ∧ lb' = lb ∧
        lb.reals.entry a = none ∧ lb.reals.used.card = pbMaxReals - 1) d lb := by
  simp only [addMemberLocked, onReals, wp_bind, wp_zoom]
  refine wp_mono (RealTable.acquire_spec henv h.table ha fun hnone =>
    hG (by simp [RealTable.macOf_eq, hnone])) (fun _ _ hw => hw) ?_ ?_
  · rintro _ d₁ t₁ ⟨ht₁, hsame₁, e₁, -, hentry₁, hjoin₁, hnext₁⟩
    have he₁ : t₁.entry a = some e₁ := by rw [hentry₁, Function.update_self]
    have hmac₁ : e₁.mac = lb.reals.macOf a := by
      rw [hjoin₁.mac, RealTable.macOf_eq, Option.or_none]
    refine wp_mono (askNeighbor_spec { lb with reals := t₁ } henv ht₁ he₁ fun hnone =>
      hG (hmac₁ ▸ hnone)) (fun _ _ hw => hw) ?_ (fun _ _ _ hf => hf.elim)
    rintro _ d₂ _ ⟨hsame₂, t₂, ht₂, hentry₂, rfl⟩
    simp only [vipAt, putVip, wp_bind, wp_get, wp_modify, hv, wp_pure,
      OrdMap.insertIfNew_eq_insert hnew]
    have hentry : t₂.entry = Function.update lb.reals.entry a
        (some { e₁ with mac := e₁.mac.or (answer env lb spec a) }) := by
      rw [hentry₂]
      simp only [hentry₁, Function.update_idem]
      rfl
    have hjoin : RealTable.Joined (lb.reals.entry a) (answer env lb spec a)
        { e₁ with mac := e₁.mac.or (answer env lb spec a) } :=
      ⟨hjoin₁.id, hjoin₁.refs, by simp [hjoin₁.mac]⟩
    refine ⟨?_, hsame₁.trans hsame₂, t₂, _, hentry, hjoin, hnext₁, rfl⟩
    refine h.join hv rfl rfl rfl ?_ rfl ht₂ (hsame₁.trans hsame₂) hentry hjoin.refs
    intro b
    simp only [OrdMap.mem_iff, OrdMap.getElem?_insert]
    split_ifs with hb <;> simp [hb]
  · rintro err d' t' ⟨rfl, rfl, rfl, hnone, hfull⟩
    exact ⟨rfl, rfl, rfl, hnone, hfull⟩

/-! ## The loops that give a VIP its wanted members

`Grown done` describes the state after the wanted reals `done` of the VIP `spec`
have been dealt with: an old member has its new weight, a new one has joined. -/

/-- A member after its real has been dealt with; a rebuild sets `inRing`. -/
def MemberAfter (env : Env) (old : Option Member) (weight : Nat) (m : Member) : Prop :=
  match old with
  | some m₀ => ∃ inRing, m = { m₀ with weight, inRing }
  | none => ∃ incarnation inRing, m = { newMember env weight incarnation with inRing }

structure Grown (env : Env) (pend : List UInt32) (lb : LbState) (d : CtlMaps)
    (spec : VipSpec) (v : Vip) (done : List (UInt32 × Nat)) (lb' : LbState) (d' : CtlMaps)
    (members : ExtTreeMap UInt32 Member) : Prop where
  consistent : Consistent pend lb' d'
  same : d.SameElse d'
  state : ∃ t n, lb' = { lb with
    reals := t
    nextIncarnation := n
    vips := lb.vips.insert spec { v with members } }
  member_done : ∀ p ∈ done, ∃ m, members[p.1]? = some m ∧
    MemberAfter env v.members[p.1]? p.2 m
  member_else : ∀ a, a ∉ done.map Prod.fst → members[a]? = v.members[a]?
  entry_new : ∀ p ∈ done, p.1 ∉ v.members → ∃ e, lb'.reals.entry p.1 = some e ∧
    RealTable.Joined (lb.reals.entry p.1) (answer env lb spec p.1) e
  entry_else : ∀ a, a ∉ done.map Prod.fst ∨ a ∈ v.members →
    lb'.reals.entry a = lb.reals.entry a

section Grow

variable {spec : VipSpec} {v : Vip}

theorem Grown.refl (h : Consistent pend lb d) (hv : lb.vips[spec]? = some v) :
    Grown env pend lb d spec v [] lb d v.members where
  consistent := h
  same := .refl d
  state := ⟨lb.reals, lb.nextIncarnation, by rw [OrdMap.insert_self hv]⟩
  member_done := by simp
  member_else _ _ := rfl
  entry_new := by simp
  entry_else _ _ := rfl

private theorem members_snoc {done : List (UInt32 × Nat)}
    {members : ExtTreeMap UInt32 Member} {a : UInt32} {w : Nat} {m : Member}
    (hdone : a ∉ done.map Prod.fst)
    (hold : ∀ p ∈ done, ∃ m, members[p.1]? = some m ∧
      MemberAfter env v.members[p.1]? p.2 m)
    (helse : ∀ a, a ∉ done.map Prod.fst → members[a]? = v.members[a]?)
    (hm : MemberAfter env v.members[a]? w m) :
    (∀ p ∈ done ++ [(a, w)], ∃ m', (members.insert a m)[p.1]? = some m' ∧
      MemberAfter env v.members[p.1]? p.2 m') ∧
    ∀ b, b ∉ (done ++ [(a, w)]).map Prod.fst →
      (members.insert a m)[b]? = v.members[b]? := by
  constructor
  · intro p hp
    rcases List.mem_append.mp hp with hp | hp
    · have hpa : p.1 ≠ a := fun heq => hdone (heq ▸ List.mem_map_of_mem hp)
      rw [OrdMap.getElem?_insert, if_neg hpa]
      exact hold p hp
    · obtain rfl := List.mem_singleton.mp hp
      exact ⟨m, by rw [OrdMap.getElem?_insert, if_pos rfl], hm⟩
  · intro b hb
    simp only [List.map_append, List.map_cons, List.map_nil, List.mem_append,
      List.mem_singleton, not_or] at hb
    rw [OrdMap.getElem?_insert, if_neg hb.2]
    exact helse b hb.1

theorem Grown.join (henv : ArrayOk env) {done : List (UInt32 × Nat)} {lb' : LbState}
    {d' : CtlMaps} {members : ExtTreeMap UInt32 Member}
    (hg : Grown env pend lb d spec v done lb' d' members) {a : UInt32} {w : Nat}
    (hdone : a ∉ done.map Prod.fst) (hnew : a ∉ v.members) (ha : a ≠ 0)
    (hG : lb.reals.macOf a = none → ∀ d w, SlotWrite d w → G d w) :
    wp (addMemberLocked env spec a w) G
      (fun _ d'' lb'' => ∃ members', Grown env pend lb d spec v (done ++ [(a, w)]) lb'' d''
        members')
      (fun err d'' lb'' => err = RealTable.tooManyReals ∧
        Grown env pend lb d spec v done lb'' d'' members ∧
        lb''.reals.entry a = none ∧ lb''.reals.used.card = pbMaxReals - 1) d' lb' := by
  obtain ⟨t, n, hstate⟩ := hg.state
  have hv' : lb'.vips[spec]? = some { v with members } := by
    rw [hstate]
    simp
  have hentry : lb'.reals.entry a = lb.reals.entry a := hg.entry_else a (.inl hdone)
  have hnew' : a ∉ members := by
    rw [OrdMap.notMem_iff, hg.member_else a hdone]
    exact OrdMap.notMem_iff.mp hnew
  have hans : answer env lb' spec a = answer env lb spec a := by
    rw [hstate]
    rfl
  refine wp_mono (addMember_spec henv hg.consistent hv' ha hnew' w fun hnone =>
    hG (by simpa [RealTable.macOf_eq, hentry] using hnone)) (fun _ _ hw => hw) ?_ ?_
  · rintro _ d'' _ ⟨hcons, hsame, t', e, hupd, hjoin, -, rfl⟩
    rw [hentry, hans] at hjoin
    have hafter : MemberAfter env v.members[a]? w (newMember env w lb'.nextIncarnation) := by
      rw [OrdMap.notMem_iff.mp hnew]
      exact ⟨_, _, rfl⟩
    obtain ⟨hmem, helse⟩ := members_snoc hdone hg.member_done hg.member_else hafter
    refine ⟨_, hcons, hg.same.trans hsame,
      ⟨t', _, by rw [hstate, OrdMap.insert_insert]⟩, hmem, helse, ?_, ?_⟩
    · intro p hp hpnew
      simp only [hupd]
      rcases List.mem_append.mp hp with hp | hp
      · have hpa : p.1 ≠ a := fun heq => hdone (heq ▸ List.mem_map_of_mem hp)
        rw [Function.update_of_ne hpa]
        exact hg.entry_new p hp hpnew
      · obtain rfl := List.mem_singleton.mp hp
        exact ⟨e, by rw [Function.update_self], hjoin⟩
    · intro b hb
      have hba : b ≠ a := by
        rintro rfl
        rcases hb with hb | hb
        · exact hb (by simp)
        · exact hnew hb
      simp only [hupd, Function.update_of_ne hba]
      exact hg.entry_else b (hb.imp_left fun h hmem => h (by simp [hmem]))
  · rintro err d'' lb'' ⟨rfl, rfl, rfl, hnone, hfull⟩
    exact ⟨rfl, hg, hnone, hfull⟩

theorem Grown.reweigh {done : List (UInt32 × Nat)} {lb' : LbState} {d' : CtlMaps}
    {members : ExtTreeMap UInt32 Member}
    (hg : Grown env pend lb d spec v done lb' d' members) {a : UInt32} (w : Nat)
    {m : Member} (hdone : a ∉ done.map Prod.fst) (hm : v.members[a]? = some m) :
    Grown env pend lb d spec v (done ++ [(a, w)])
      { lb' with
        vips := lb'.vips.insert spec
          { v with members := members.insert a { m with weight := w } } } d'
      (members.insert a { m with weight := w }) := by
  obtain ⟨t, n, rfl⟩ := hg.state
  have hafter : MemberAfter env v.members[a]? w { m with weight := w } := by
    rw [hm]
    exact ⟨_, rfl⟩
  obtain ⟨hmem, helse⟩ := members_snoc hdone hg.member_done hg.member_else hafter
  have hma : members[a]? = some m := (hg.member_else a hdone).trans hm
  have hmems : ∀ b, b ∈ members.insert a { m with weight := w } ↔ b ∈ members := by
    intro b
    simp only [OrdMap.mem_iff, OrdMap.getElem?_insert]
    split_ifs with hb <;> simp [hb, hma]
  have hv : (lb.vips.insert spec { v with members })[spec]? = some { v with members } := by
    simp
  refine ⟨?_, hg.same, ⟨t, n, by rw [OrdMap.insert_insert]⟩, hmem, helse, ?_, ?_⟩
  · exact hg.consistent.edit hv { v with members := members.insert a { m with weight := w } }
      rfl rfl hmems rfl rfl rfl
  · intro p hp hpnew
    rcases List.mem_append.mp hp with hp | hp
    · exact hg.entry_new p hp hpnew
    · obtain rfl := List.mem_singleton.mp hp
      exact absurd (OrdMap.mem_iff.mpr ⟨m, hm⟩) hpnew
  · intro b hb
    exact hg.entry_else b (hb.imp_left fun h hmem => h (by simp [hmem]))

theorem Grown.used_eq (h : Consistent pend lb d) (hv : lb.vips[spec]? = some v)
    {done : List (UInt32 × Nat)} {lb' : LbState} {d' : CtlMaps}
    {members : ExtTreeMap UInt32 Member}
    (hg : Grown env pend lb d spec v done lb' d' members) :
    lb'.reals.used = lb.reals.used ∪ (done.map Prod.fst).toFinset := by
  ext a
  rw [Finset.mem_union, List.mem_toFinset, RealTable.mem_used, RealTable.mem_used]
  by_cases hdone : a ∈ done.map Prod.fst
  · simp only [hdone, or_true, iff_true]
    obtain ⟨p, hp, rfl⟩ := List.mem_map.mp hdone
    by_cases hmem : p.1 ∈ v.members
    · rw [hg.entry_else p.1 (.inr hmem)]
      exact h.member_entry hv hmem
    · obtain ⟨e, he, -⟩ := hg.entry_new p hp hmem
      exact ⟨e, he⟩
  · rw [hg.entry_else a (.inl hdone)]
    simp [hdone]

def GrowFailed (env : Env) (pend : List UInt32) (lb : LbState) (d : CtlMaps)
    (spec : VipSpec) (v : Vip) (wanted : List (UInt32 × Nat)) (err : LbError)
    (d' : CtlMaps) (lb' : LbState) : Prop :=
  err = RealTable.tooManyReals ∧
    (∃ done members, Grown env pend lb d spec v done lb' d' members) ∧
    pbMaxReals - 1 < (lb.reals.used ∪ (wanted.map Prod.fst).toFinset).card

theorem Grown.failed (h : Consistent pend lb d) (hv : lb.vips[spec]? = some v)
    {done : List (UInt32 × Nat)} {lb' : LbState} {d' : CtlMaps}
    {members : ExtTreeMap UInt32 Member}
    (hg : Grown env pend lb d spec v done lb' d' members) {p : UInt32 × Nat}
    {rest : List (UInt32 × Nat)} (hnone : lb'.reals.entry p.1 = none)
    (hfull : lb'.reals.used.card = pbMaxReals - 1) :
    GrowFailed env pend lb d spec v (done ++ p :: rest) RealTable.tooManyReals d' lb' := by
  refine ⟨rfl, ⟨done, members, hg⟩, ?_⟩
  have hnot := RealTable.notMem_used.mpr hnone
  rw [← hfull]
  apply Finset.card_lt_card
  rw [Finset.ssubset_iff_of_subset]
  · exact ⟨p.1, by simp, hnot⟩
  · rw [hg.used_eq h hv]
    refine Finset.union_subset_union_right fun b hb => ?_
    rw [List.mem_toFinset] at hb ⊢
    simp only [List.map_append, List.mem_append, hb, true_or]

/-- The loop of `create_vip_locked`: every wanted real is new. -/
theorem addMembers_spec (henv : ArrayOk env) (h : Consistent pend lb d)
    (hv : lb.vips[spec]? = some v) (wanted : List (UInt32 × Nat))
    (hnodup : (wanted.map Prod.fst).Nodup) (hnew : ∀ p ∈ wanted, p.1 ∉ v.members)
    (hne : ∀ p ∈ wanted, p.1 ≠ 0)
    (hG : (∃ p ∈ wanted, lb.reals.macOf p.1 = none) → ∀ d w, SlotWrite d w → G d w) :
    wp (Prog.each wanted fun r => addMemberLocked env spec r.1 r.2) G
      (fun _ d' lb' => ∃ members, Grown env pend lb d spec v wanted lb' d' members)
      (GrowFailed env pend lb d spec v wanted) d lb := by
  refine wp_each (I := fun done d' lb' => ∃ members,
    Grown env pend lb d spec v done lb' d' members) wanted ⟨_, .refl h hv⟩ ?_
  rintro done p rest rfl d' lb' ⟨members, hg⟩
  have hmem : p ∈ done ++ p :: rest := by simp
  have hdone : p.1 ∉ done.map Prod.fst := by
    rw [List.map_append, List.nodup_append] at hnodup
    exact fun hin => hnodup.2.2 _ hin _ (by simp) rfl
  refine wp_mono (hg.join henv hdone (hnew p hmem) (hne p hmem) fun hnone =>
    hG ⟨p, hmem, hnone⟩) (fun _ _ hw => hw) (fun _ _ _ hq => hq) ?_
  rintro err d'' lb'' ⟨rfl, hg'', hnone, hfull⟩
  exact hg''.failed h hv hnone hfull

def differs (v : Vip) (p : UInt32 × Nat) : Bool :=
  match v.members[p.1]? with
  | some m => m.weight ≠ p.2
  | none => true

/-- The loop of `apply` over the wanted reals of a VIP that exists. -/
theorem reconcileMembers_spec (henv : ArrayOk env) (h : Consistent pend lb d)
    (hv : lb.vips[spec]? = some v) (wanted : List (UInt32 × Nat))
    (hnodup : (wanted.map Prod.fst).Nodup) (hne : ∀ p ∈ wanted, p.1 ≠ 0)
    (hG : (∃ p ∈ wanted, p.1 ∉ v.members ∧ lb.reals.macOf p.1 = none) →
      ∀ d w, SlotWrite d w → G d w) (changed : Bool) :
    wp (Prog.fold wanted changed (reconcileMember env spec)) G
      (fun changed' d' lb' => changed' = (changed || wanted.any (differs v)) ∧
        ∃ members, Grown env pend lb d spec v wanted lb' d' members)
      (GrowFailed env pend lb d spec v wanted) d lb := by
  refine wp_fold (I := fun done changed' d' lb' =>
    changed' = (changed || done.any (differs v)) ∧
      ∃ members, Grown env pend lb d spec v done lb' d' members) wanted
    ⟨by simp, _, .refl h hv⟩ ?_
  rintro done p rest rfl _ d' lb' ⟨rfl, members, hg⟩
  have hmem : p ∈ done ++ p :: rest := by simp
  have hdone : p.1 ∉ done.map Prod.fst := by
    rw [List.map_append, List.nodup_append] at hnodup
    exact fun hin => hnodup.2.2 _ hin _ (by simp) rfl
  obtain ⟨t, n, hstate⟩ := hg.state
  have hv' : lb'.vips[spec]? = some { v with members } := by
    rw [hstate]
    simp
  simp only [reconcileMember, vipAt, wp_bind, wp_get, hv', wp_pure, hg.member_else p.1 hdone]
  cases hm : v.members[p.1]? with
  | none =>
      have hnew : p.1 ∉ v.members := OrdMap.notMem_iff.mpr hm
      simp only [wp_bind, wp_pure]
      refine wp_mono (hg.join henv hdone hnew (hne p hmem) fun hnone =>
        hG ⟨p, hmem, hnew, hnone⟩) (fun _ _ hw => hw) ?_ ?_
      · rintro _ d'' lb'' ⟨members', hg'⟩
        exact ⟨by simp [differs, hm], members', hg'⟩
      · rintro err d'' lb'' ⟨rfl, hg'', hnone, hfull⟩
        exact hg''.failed h hv hnone hfull
  | some m =>
      have hre := hg.reweigh p.2 hdone hm
      simp only [wp_ite, putVip, wp_bind, wp_modify, wp_pure]
      constructor
      · intro hw
        exact ⟨by simp [differs, hm, hw], _, hre⟩
      · intro hw
        rw [not_not] at hw
        refine ⟨by simp [differs, hm, hw], members, ?_⟩
        have hself : members.insert p.1 { m with weight := p.2 } = members := by
          apply OrdMap.insert_self
          rw [hg.member_else p.1 hdone, hm, ← hw]
        have hlb : { lb' with vips := lb'.vips.insert spec { v with members } } = lb' := by
          rw [OrdMap.insert_self hv']
        rwa [hself, hlb] at hre

end Grow

/-! ## The loops that release -/

theorem releaseAll_spec (henv : ArrayOk env) (ht : lb.reals.Sound d) (l : List UInt32)
    (hnodup : l.Nodup) (hent : ∀ a ∈ l, ∃ e, lb.reals.entry a = some e)
    (hfree : ∀ d' a e, d.SameElse d' → a ∈ l → lb.reals.entry a = some e → e.refs ≤ 1 →
      d'.reals e.id = a → G d' (.realWrite e.id 0))
    (hblank : ∀ d' a e, a ∈ l → lb.reals.entry a = some e → e.refs ≤ 1 → d'.reals e.id = 0 →
      G d' (.neighWrite e.id Mac.zero)) :
    wp (Prog.each l fun a => onReals (RealTable.release env a)) G
      (fun _ d' lb' => d.SameElse d' ∧ ∃ t, t.Sound d' ∧ lb' = { lb with reals := t } ∧
        ∀ a, t.entry a = if a ∈ l then (lb.reals.entry a).bind RealTable.Entry.drop
          else lb.reals.entry a)
      (fun _ _ _ => False) d lb := by
  refine wp_each (I := fun done d' lb' => d.SameElse d' ∧ ∃ t, t.Sound d' ∧
    lb' = { lb with reals := t } ∧ ∀ a, t.entry a =
      if a ∈ done then (lb.reals.entry a).bind RealTable.Entry.drop else lb.reals.entry a) l
    ⟨.refl d, lb.reals, ht, rfl, by simp⟩ ?_
  rintro done a rest rfl d' _ ⟨hsame, t, ht', rfl, hentry⟩
  have hdone : a ∉ done := by
    rw [List.nodup_append] at hnodup
    exact fun hin => hnodup.2.2 _ hin _ (by simp) rfl
  obtain ⟨e, he⟩ := hent a (by simp)
  have het : t.entry a = some e := by rw [hentry, if_neg hdone, he]
  simp only [onReals, wp_zoom]
  refine wp_mono (RealTable.release_spec henv ht' het fun hrefs =>
    ⟨hfree d' a e hsame (by simp) he hrefs (ht'.mirror.reals_entry ht'.wf het),
      fun d'' => hblank d'' a e (by simp) he hrefs⟩)
    (fun _ _ hw => hw) ?_ (fun _ _ _ hf => hf)
  rintro _ d'' t'' ⟨ht'', hsame'', hupd⟩
  refine ⟨hsame.trans hsame'', t'', ht'', rfl, fun b => ?_⟩
  rw [hupd]
  by_cases hb : b = a
  · subst hb
    simp [he]
  · rw [Function.update_of_ne hb, hentry]
    simp [hb]

end LbState

end PacketBalance
