import PacketBalance.LbState.Capacity
import PacketBalance.LbState.Live
/-!
# Addresses that outlive an `apply`

References rise and fall VIP by VIP, in the order of the configuration, with the
deletions first.  An address keeps its slot as long as some VIP has it at every moment
in between; `Carried` says when that is so.  A daemon that has just adopted the maps
holds no reference yet and drops none before its end.
-/

namespace PacketBalance

open WriteLog Std

namespace LbState

variable {lb lb' : LbState} {d d' d₁ : CtlMaps} {env : Env} {cfg : Config}
variable {done : List VipConfig} {z : CtlMaps × LbState} {a : UInt32}

/-- Nobody has the address yet, or a configured VIP that lists it stands no later in
the configuration than one that has it. -/
def Carried (lb : LbState) (cfg : Config) (a : UInt32) : Prop :=
  holders lb.vips a = ∅ ∨ ∃ done vc rest, cfg.vips = done ++ vc :: rest ∧ a ∈ vc.addrs ∧
    ∃ u ∈ vc :: rest, a ∈ lb.membersAt u.spec

/-- Somebody has the address when the VIPs before `later` have had their turn. -/
def HeldBetween (lb : LbState) (done later : List VipConfig) (a : UInt32) : Prop :=
  (∃ u ∈ done, a ∈ u.addrs) ∨ ∃ u ∈ later, a ∈ lb.membersAt u.spec

/-- A carried address is held at every moment. -/
theorem Carried.heldBetween (h : lb.Carried cfg a) (hheld : holders lb.vips a ≠ ∅)
    {later : List VipConfig} (hvips : cfg.vips = done ++ later) :
    lb.HeldBetween done later a := by
  obtain ⟨before, vc, rest, hsplit, ha, u, hu, hmem⟩ := h.resolve_left hheld
  rw [hsplit, List.append_eq_append_iff] at hvips
  rcases hvips with ⟨t, rfl, ht⟩ | ⟨t, rfl, ht⟩
  · cases t with
    | nil => exact .inr ⟨u, (show vc :: rest = later from ht) ▸ hu, hmem⟩
    | cons x t =>
        obtain ⟨rfl, -⟩ : vc = x ∧ rest = t ++ later := by simpa using ht
        exact .inl ⟨vc, by simp, ha⟩
  · exact .inr ⟨u, by rw [ht]; exact List.mem_append_right _ hu, hmem⟩

/-- An address that is not carried is held by nobody at some moment. -/
theorem exists_gap (hnot : ¬lb.Carried cfg a) (ha : a ∈ cfg.addrs) :
    ∃ done later, cfg.vips = done ++ later ∧ ¬lb.HeldBetween done later a := by
  -- the moment before the first VIP that lists the address has its turn
  obtain ⟨vc, hvc, ha⟩ := Config.mem_addrs.mp ha
  have hfind : (cfg.vips.find? fun u => a ∈ u.addrs).isSome := by
    rw [List.find?_isSome]
    exact ⟨vc, hvc, by simpa using ha⟩
  obtain ⟨vc, hfirst⟩ := Option.isSome_iff_exists.mp hfind
  obtain ⟨hlist, done, rest, hvips, hnone⟩ := List.find?_eq_some_iff_append.mp hfirst
  refine ⟨done, vc :: rest, hvips, ?_⟩
  rintro (⟨u, hu, hu'⟩ | ⟨u, hu, hmem⟩)
  · have := hnone u hu
    simp [hu'] at this
  · exact hnot (.inr ⟨done, vc, rest, hvips, by simpa using hlist, u, hu, hmem⟩)

/-! ## References -/

/-- A running daemon counts more references to the address than VIPs have it: a call that
threw has left one behind. -/
def Leaks (lb : LbState) (a : UInt32) : Prop :=
  lb.initialized = true ∧ (holders lb.vips a).card < lb.reals.refsOf a

theorem Path.drop_leak {d₀ : CtlMaps} {lb₀ : LbState} {gone : List VipSpec}
    (hstart : Start env cfg lb d d₀ lb₀) (hinit : lb.initialized = true)
    (hpath : Path (DropR cfg) gone (d₀, lb₀) z) (a : UInt32) :
    z.2.reals.refsOf a + (holders lb.vips a).card =
      lb.reals.refsOf a + (holders z.2.vips a).card := by
  refine (hpath.invariant (I := fun _ z => Consistent [] z.2 z.1 ∧
    z.2.reals.refsOf a + (holders lb.vips a).card =
      lb.reals.refsOf a + (holders z.2.vips a).card) ⟨hstart.consistent, ?_⟩ ?_).2
  · rw [(hstart.running hinit).1, hstart.vips]
  · rintro before spec rest - z z' ⟨hc, hz⟩ hstep
    rw [DropR] at hstep
    split_ifs at hstep
    · exact hstep ▸ ⟨hc, hz⟩
    · obtain ⟨v, hv, hdel⟩ := hstep
      have := hdel.leak hc hv a
      exact ⟨hdel.consistent, by omega⟩

theorem Along.leak (h : Along env cfg lb d done z) (hinit : lb.initialized = true) (a : UInt32) :
    z.2.reals.refsOf a + (holders lb.vips a).card =
      lb.reals.refsOf a + (holders z.2.vips a).card := by
  obtain ⟨z₁, ⟨d₀, lb₀, hstart, hdrop⟩, hpath⟩ := h
  refine (hpath.invariant (I := fun _ z => Consistent [] z.2 z.1 ∧
    z.2.reals.refsOf a + (holders lb.vips a).card =
      lb.reals.refsOf a + (holders z.2.vips a).card)
    ⟨(Path.drop_facts hstart.consistent hdrop).1, Path.drop_leak hstart hinit hdrop a⟩ ?_).2
  rintro before vc rest - z z' ⟨hc, hz⟩ ⟨v', hstep⟩
  have := hstep.leak hc a
  exact ⟨hstep.consistent, by omega⟩

theorem Along.counted (h : Along env cfg lb d done z) (hl : Live lb d) :
    ∀ a e, z.2.reals.entry a = some e → 0 < e.refs := by
  obtain ⟨z₁, ⟨d₀, lb₀, hstart, hdrop⟩, hpath⟩ := h
  have hopen : ∀ a e, z₁.2.reals.entry a = some e → 0 < e.refs := by
    refine hdrop.invariant (I := fun _ z => ∀ a e, z.2.reals.entry a = some e → 0 < e.refs) ?_ ?_
    · rw [(hstart.running hl.initialized).1]
      exact hl.consistent.table.wf.referred_iff.mp hl.referred
    · rintro before spec rest - z z' hz hstep
      rw [DropR] at hstep
      split_ifs at hstep
      · exact hstep ▸ hz
      · obtain ⟨v, -, hdel⟩ := hstep
        exact fun _ _ he => hdel.refs_pos hz he
  refine hpath.invariant (I := fun _ z => ∀ a e, z.2.reals.entry a = some e → 0 < e.refs) hopen ?_
  rintro before vc rest - z z' hz ⟨v', hstep⟩
  exact fun _ _ he => hstep.refs_pos hz he

theorem Along.holders_ne_empty_iff (h : Along env cfg lb d done z) (hok : cfg.Ok)
    {later : List VipConfig} (hvips : cfg.vips = done ++ later) :
    holders z.2.vips a ≠ ∅ ↔ lb.HeldBetween done later a := by
  have hnodup := hok.specs_nodup
  rw [Config.specs, hvips, List.map_append, List.nodup_append] at hnodup
  rw [← Finset.nonempty_iff_ne_empty, Finset.Nonempty]
  simp only [h.holder_iff hok ⟨_, hvips.symm⟩]
  constructor
  · rintro ⟨s, ⟨u, hu, -, ha⟩ | ⟨u, hu, rfl, hin, ha⟩⟩
    · exact .inl ⟨u, hu, ha⟩
    · rw [hvips, List.mem_append] at hu
      exact .inr ⟨u, hu.resolve_left fun hu => hin (List.mem_map_of_mem hu), ha⟩
  · rintro (⟨u, hu, ha⟩ | ⟨u, hu, hmem⟩)
    · exact ⟨u.spec, .inl ⟨u, hu, rfl, ha⟩⟩
    · refine ⟨u.spec, .inr ⟨u, by simp [hvips, hu], rfl, fun hin => ?_, hmem⟩⟩
      exact hnodup.2.2 _ hin _ (List.mem_map_of_mem hu) rfl

theorem Along.mem_used_iff (h : Along env cfg lb d done z) (hl : Live lb d) (hok : cfg.Ok)
    {later : List VipConfig} (hvips : cfg.vips = done ++ later) :
    a ∈ z.2.reals.used ↔ lb.HeldBetween done later a ∨ lb.Leaks a := by
  have hleak := h.leak hl.initialized a
  have hheld := hl.consistent.held a
  have hused : a ∈ z.2.reals.used ↔ 0 < z.2.reals.refsOf a := by
    rw [RealTable.mem_used, RealTable.refsOf]
    cases he : z.2.reals.entry a with
    | none => simp
    | some e => simpa using h.counted hl a e he
  rw [hused, ← h.holders_ne_empty_iff hok hvips, ← Finset.nonempty_iff_ne_empty,
    ← Finset.card_pos, Leaks, and_iff_right hl.initialized]
  rw [owed, List.count_nil] at hheld
  omega

/-! ## Where the address could be lost -/

theorem Carried.shared_drop (hc : lb.Carried cfg a) {d₀ : CtlMaps} {lb₀ : LbState}
    {gone : List VipSpec} {spec : VipSpec} {v : Vip} (hstart : Start env cfg lb d d₀ lb₀)
    (hpath : Path (DropR cfg) gone (d₀, lb₀) z)
    (hspec : spec ∉ cfg.specs) (hv : z.2.vips[spec]? = some v) (ha : a ∈ v.members)
    {e : RealTable.Entry} (he : z.2.reals.entry a = some e) : 1 < e.refs := by
  obtain ⟨hcons, -, hvips⟩ := Path.drop_facts hstart.consistent hpath
  have hheld : holders lb.vips a ≠ ∅ := by
    have hv₀ := hv
    rw [hvips, hstart.vips] at hv₀
    split_ifs at hv₀
    exact Finset.ne_empty_of_mem (mem_holders.mpr ⟨v, hv₀, ha⟩)
  obtain ⟨before, vc, rest, hsplit, -, u, hu, hmem⟩ := hc.resolve_left hheld
  have hu' : u.spec ∈ cfg.specs :=
    List.mem_map_of_mem (by rw [hsplit]; exact List.mem_append_right _ hu)
  obtain ⟨v', hv', ha'⟩ := mem_holders.mp (mem_holders_membersAt.mpr hmem)
  have hv'z : z.2.vips[u.spec]? = some v' := by
    rw [hvips, if_neg fun hin => hin.2 hu', hstart.vips, hv']
  have hne : spec ≠ u.spec := fun heq => hspec (heq ▸ hu')
  exact hcons.one_lt_refs hv hv'z hne ha ha' he

theorem Carried.shared_step (hc : lb.Carried cfg a) (hok : cfg.Ok)
    {vc : VipConfig} {rest : List VipConfig} (hvips : cfg.vips = done ++ vc :: rest)
    (h : Along env cfg lb d done z) {v : Vip} (hv : z.2.vips[vc.spec]? = some v)
    (ha : a ∈ v.members) (hgone : a ∉ wantOf vc) {e : RealTable.Entry}
    (he : z.2.reals.entry a = some e) : 1 < e.refs := by
  have hpre : done <+: cfg.vips := ⟨_, hvips.symm⟩
  obtain ⟨hbefore, hafter, hlater⟩ := hok.split hvips
  have hheld : holders lb.vips a ≠ ∅ := by
    have hmem := (h.holder_iff hok hpre).mp (mem_holders.mpr ⟨v, hv, ha⟩)
    rcases hmem with ⟨u, hu, heq, -⟩ | ⟨u, -, -, -, hmem⟩
    · exact absurd heq (hbefore u hu)
    · exact Finset.ne_empty_of_mem (mem_holders_membersAt.mpr hmem)
  have hnot : a ∉ vc.addrs := mt (mem_wantOf (hok.vip_ok vc (by simp [hvips]))).mpr hgone
  -- somebody has it once this VIP has had its turn, so somebody else has it now
  have hother : ∃ u : VipConfig, u.spec ≠ vc.spec ∧ u.spec ∈ holders z.2.vips a := by
    simp only [h.holder_iff hok hpre]
    have hsplit : cfg.vips = (done ++ [vc]) ++ rest := by simp [hvips]
    rcases hc.heldBetween hheld hsplit with ⟨u, hu, hu'⟩ | ⟨u, hu, hmem⟩
    · rcases List.mem_append.mp hu with hu | hu
      · exact ⟨u, hbefore u hu, .inl ⟨u, hu, rfl, hu'⟩⟩
      · exact absurd (List.mem_singleton.mp hu ▸ hu') hnot
    · exact ⟨u, hafter u hu, .inr ⟨u, by simp [hvips, hu], rfl, hlater u hu, hmem⟩⟩
  obtain ⟨u, hne, hmem⟩ := hother
  obtain ⟨v', hv', ha'⟩ := mem_holders.mp hmem
  exact h.facts.1.one_lt_refs hv hv' hne.symm ha ha' he

theorem Leaks.shared (hl : lb.Leaks a) {lb₁ : LbState} {spec : VipSpec} {v : Vip}
    (hleak : lb₁.reals.refsOf a + (holders lb.vips a).card =
      lb.reals.refsOf a + (holders lb₁.vips a).card)
    (hv : lb₁.vips[spec]? = some v) (ha : a ∈ v.members) {e : RealTable.Entry}
    (he : lb₁.reals.entry a = some e) : 1 < e.refs := by
  have hpos := Finset.card_pos.mpr ⟨spec, mem_holders.mpr ⟨v, hv, ha⟩⟩
  have hrefs : lb₁.reals.refsOf a = e.refs := by rw [RealTable.refsOf, he, Option.elim_some]
  have hmore := hl.2
  omega

/-- Nothing that `apply` does takes the last reference of the address. -/
def Lasting (lb : LbState) (cfg : Config) (a : UInt32) : Prop := lb.Carried cfg a ∨ lb.Leaks a

theorem Settled.not_lasting (hs : Settled lb d) (hnot : ¬lb.Carried cfg a) :
    ¬lb.Lasting cfg a := by
  rintro (hc | ⟨-, hmore⟩)
  · exact hnot hc
  · exact absurd (hs.refs_eq a) (Nat.ne_of_gt hmore)

theorem Lasting.shared_drop (hl : lb.Lasting cfg a) {d₀ : CtlMaps} {lb₀ : LbState}
    {gone : List VipSpec} {spec : VipSpec} {v : Vip} (hstart : Start env cfg lb d d₀ lb₀)
    (hpath : Path (DropR cfg) gone (d₀, lb₀) z)
    (hspec : spec ∉ cfg.specs) (hv : z.2.vips[spec]? = some v) (ha : a ∈ v.members)
    {e : RealTable.Entry} (he : z.2.reals.entry a = some e) : 1 < e.refs := by
  rcases hl with hc | hl
  · exact hc.shared_drop hstart hpath hspec hv ha he
  · exact hl.shared (Path.drop_leak hstart hl.1 hpath a) hv ha he

theorem Lasting.shared_step (hl : lb.Lasting cfg a) (hok : cfg.Ok)
    {vc : VipConfig} {rest : List VipConfig} (hvips : cfg.vips = done ++ vc :: rest)
    (h : Along env cfg lb d done z) {v : Vip} (hv : z.2.vips[vc.spec]? = some v)
    (ha : a ∈ v.members) (hgone : a ∉ wantOf vc) {e : RealTable.Entry}
    (he : z.2.reals.entry a = some e) : 1 < e.refs := by
  rcases hl with hc | hl
  · exact hc.shared_step hok hvips h hv ha hgone he
  · exact hl.shared (h.leak hl.1 a) hv ha he

theorem Along.refs_pos (h : Along env cfg lb d cfg.vips z) (hok : cfg.Ok) (ha : a ∈ cfg.addrs)
    {e : RealTable.Entry} (he : z.2.reals.entry a = some e) : 0 < e.refs := by
  obtain ⟨vc, hvc, ha⟩ := Config.mem_addrs.mp ha
  have hheld := h.facts.1.held a
  have hpos : 0 < (holders z.2.vips a).card := Finset.card_pos.mpr
    ⟨vc.spec, (h.holder_iff hok List.prefix_rfl).mpr (.inl ⟨vc, hvc, rfl, ha⟩)⟩
  rw [owed, List.count_nil, RealTable.refsOf, he] at hheld
  exact Nat.lt_of_lt_of_le hpos (by simpa using hheld)

theorem SlotWrite.keeps_real {w : MapWrite} (hw : SlotWrite d₁ w) (hne : a ≠ 0) {id : Nat}
    (h : d₁.reals id = a) : (Durable.write d₁ w).reals id = a := by
  cases hw with
  | reset _ _ => exact h
  | blankMac _ _ _ => exact h
  | setMac _ _ _ => exact h
  | fill id' addr _ hfree _ =>
      have hid : id ≠ id' := by
        rintro rfl
        exact hne (h.symm.trans hfree)
      simpa [hid] using h
  | rewrite id' addr hsame =>
      by_cases hid : id = id'
      · subst hid
        simpa [← hsame] using h
      · simpa [hid] using h

theorem ApplyWrite.keeps_real {w : MapWrite} (hw : ApplyWrite env cfg lb d d₁ w) (hok : cfg.Ok)
    (hc : lb.Lasting cfg a) (ha : a ∈ cfg.addrs) (hne : a ≠ 0) {id : Nat}
    (h : d₁.reals id = a) : (Durable.write d₁ w).reals id = a := by
  -- freeing the slot of an address that still has a second reference does not happen
  have hfree : ∀ (b : UInt32) (e : RealTable.Entry), d₁.reals e.id = b → b ≠ a →
      (Durable.write d₁ (.realWrite e.id 0)).reals id = a := by
    rintro b e hb hba
    have hid : id ≠ e.id := by
      rintro rfl
      exact hba (hb.symm.trans h)
    simpa [hid] using h
  cases hw with
  | config => exact h
  | drop gone spec rest v d₀ lb₀ z _ hkeys hstart hpath hspec hv hw =>
      cases hw with
      | entry _ => exact h
      | ring _ => exact h
      | blank => exact h
      | free b e _ hb he hrefs haddr =>
          refine hfree b e haddr ?_
          rintro rfl
          have := hc.shared_drop hstart hpath hspec hv hb he
          omega
  | vip done vc rest z _ hvips halong hw =>
      cases hw with
      | reset _ _ _ => exact h
      | slot _ _ _ _ _ hslot => exact SlotWrite.keeps_real hslot hne h
      | ring _ _ _ _ _ _ => exact h
      | entry _ _ _ _ _ _ _ _ => exact h
      | flags _ _ _ _ => exact h
      | blank => exact h
      | free v b e r hv hb hgone he hrefs haddr _ _ _ _ =>
          refine hfree b e haddr ?_
          rintro rfl
          have := hc.shared_step hok hvips halong hv hb hgone he
          omega
  | finish z _ _ halong hw =>
      cases hw with
      | entry _ _ _ => exact h
      | ring _ _ _ _ _ => exact h
      | blank => exact h
      | free b e he hrefs haddr _ _ =>
          refine hfree b e haddr ?_
          rintro rfl
          have := halong.refs_pos hok ha he
          omega

/-! ## Id and MAC at the end -/

/-- The table knows the address by an id and by the MAC that the maps had for it. -/
def KnownAs (d : CtlMaps) (id : Nat) (a : UInt32) (t : RealTable) : Prop :=
  ∃ e, t.entry a = some e ∧ e.id = id ∧ (d.neigh id ≠ Mac.zero → e.mac = some (d.neigh id))

variable {id : Nat}

theorem Deleted.known {spec : VipSpec} {v : Vip} (h : Deleted lb d₁ spec v lb' d')
    (hk : KnownAs d id a lb.reals)
    (hshared : ∀ e, lb.reals.entry a = some e → a ∈ v.members → 1 < e.refs) :
    KnownAs d id a lb'.reals := by
  obtain ⟨e, he, hid, hmac⟩ := hk
  by_cases ha : a ∈ v.members
  · refine ⟨{ e with refs := e.refs - 1 }, ?_, hid, hmac⟩
    rw [h.entry, if_pos ha, he, Option.bind_some, RealTable.Entry.drop,
      if_pos (hshared e he ha)]
  · exact ⟨e, by rw [h.entry, if_neg ha, he], hid, hmac⟩

theorem VipStep.known {hashChanged : Bool} {spec : VipSpec} {flags : UInt32}
    {want : ExtTreeMap UInt32 Nat} {v' : Vip}
    (h : VipStep env hashChanged lb d₁ spec flags want v' d' lb') (hk : KnownAs d id a lb.reals)
    (hshared : ∀ e, lb.reals.entry a = some e → a ∈ lb.membersAt spec → a ∉ want →
      1 < e.refs) : KnownAs d id a lb'.reals := by
  obtain ⟨e, he, hid, hmac⟩ := hk
  by_cases hw : a ∈ want <;> by_cases ha : a ∈ lb.membersAt spec
  · exact ⟨e, by rw [h.entry_same a (iff_of_true hw ha), he], hid, hmac⟩
  · obtain ⟨e', he', hjoin⟩ := h.entry_new a hw ha
    refine ⟨e', he', (hjoin.id e he).trans hid, fun hne => ?_⟩
    rw [hjoin.mac, he, Option.bind_some, hmac hne, Option.some_or]
  · refine ⟨{ e with refs := e.refs - 1 }, ?_, hid, hmac⟩
    rw [h.entry_gone a ha hw, he, Option.bind_some, RealTable.Entry.drop,
      if_pos (hshared e he ha hw)]
  · exact ⟨e, by rw [h.entry_same a (iff_of_false hw ha), he], hid, hmac⟩

theorem Finished.known (h : Finished lb d₁ d' lb') (hk : KnownAs d id a lb.reals)
    (hpos : ∀ e, lb.reals.entry a = some e → 0 < e.refs) : KnownAs d id a lb'.reals := by
  obtain ⟨e, he, hid, hmac⟩ := hk
  exact ⟨e, by rw [h.entry, he]; simp [Option.filter, hpos e he], hid, hmac⟩

theorem KnownAs.of_reals {t : RealTable} (ht : t.Sound d) (hne : a ≠ 0)
    (h : d.reals id = a) : KnownAs d id a t := by
  obtain ⟨e, he, rfl⟩ := ht.mirror.entry_of_reals ht.wf (h.symm ▸ hne)
  rw [h] at he
  refine ⟨e, he, rfl, fun hmac => ?_⟩
  rw [ht.mirror.neigh_entry ht.wf he] at hmac ⊢
  cases he : e.mac with
  | none => simp [he] at hmac
  | some m => rfl

theorem Along.known (h : Along env cfg lb d done z) (hok : cfg.Ok)
    (hpre : done <+: cfg.vips) (hc : lb.Lasting cfg a) (hne : a ≠ 0) (hid : d.reals id = a) :
    KnownAs d id a z.2.reals := by
  obtain ⟨z₁, hopen, hpath⟩ := h
  refine (hpath.invariant (I := fun done z => Along env cfg lb d done z ∧ KnownAs d id a z.2.reals)
    ⟨⟨z₁, hopen, rfl⟩, ?_⟩ ?_).2
  · obtain ⟨d₀, lb₀, hstart, hdrop⟩ := hopen
    obtain ⟨mac, -, hd₀⟩ := hstart.maps
    have hknown : KnownAs d id a lb₀.reals :=
      .of_reals (hstart.consistent.table.congr (by rw [hd₀]) (by rw [hd₀])) hne hid
    refine (hdrop.invariant (I := fun gone z => Path (DropR cfg) gone (d₀, lb₀) z ∧
      KnownAs d id a z.2.reals) ⟨rfl, hknown⟩ ?_).2
    rintro gone spec rest - z z' ⟨hgone, hz⟩ hstep
    refine ⟨hgone.snoc hstep, ?_⟩
    rw [DropR] at hstep
    split_ifs at hstep with hspec
    · exact hstep ▸ hz
    · obtain ⟨v, hv, hdel⟩ := hstep
      exact hdel.known hz fun e he ha => hc.shared_drop hstart hgone hspec hv ha he
  · rintro before vc rest hdone z z' ⟨halong, hz⟩ ⟨v', hstep⟩
    refine ⟨halong.snoc ⟨v', hstep⟩, hstep.known hz fun e he ha hgone => ?_⟩
    obtain ⟨later, hlater⟩ := hpre
    have hvips : cfg.vips = before ++ vc :: (rest ++ later) := by simp [← hlater, hdone]
    obtain ⟨v, hv, hmem⟩ := mem_holders.mp (mem_holders_membersAt.mpr ha)
    exact hc.shared_step hok hvips halong hv hmem hgone he

theorem Applied.known (h : Applied env cfg lb d d' lb') (hok : cfg.Ok)
    (hc : lb.Lasting cfg a) (ha : a ∈ cfg.addrs) (hne : a ≠ 0) (hid : d.reals id = a) :
    KnownAs d id a lb'.reals := by
  obtain ⟨z, halong, hend⟩ := h
  have hz := halong.known hok List.prefix_rfl hc hne hid
  split_ifs at hend with hinit
  · rw [hend] at hz
    exact hz
  · exact hend.known hz fun e he => halong.refs_pos hok ha he

/-! ## Losing it -/

theorem exists_cleared (henv : ArrayOk env) (hok : cfg.Ok) (hl : Live lb d)
    (hres : (apply env cfg d lb).res = .ok ()) (hnot : ¬lb.Lasting cfg a) (ha : a ∈ cfg.addrs)
    (hne : a ≠ 0) : ∃ log, log <+: (apply env cfg d lb).log ∧
      ∀ id, (replay d log).reals id ≠ a := by
  rw [Lasting, not_or] at hnot
  obtain ⟨done, later, hvips, hgap⟩ := exists_gap hnot.1 ha
  obtain ⟨log, lb', hlog, halong⟩ :=
    Along.of_apply henv hok (.running hl.consistent) hres ⟨later, hvips.symm⟩
  refine ⟨log, hlog, fun id hid => ?_⟩
  have hsound := halong.facts.1.table
  have hused := hsound.mem_used.mpr (hsound.realsOk.mem_addrs.mpr ⟨hne, id, hid⟩)
  exact (halong.mem_used_iff hl hok hvips).mp hused |>.elim hgap hnot.2

end LbState

end PacketBalance
