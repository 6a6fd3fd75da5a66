import PacketBalance.ConfigFile
/-!
# What the configuration file can say

The documents that `parse_config` accepts have no unknown key, and what it returns for them are
exactly the configurations that can be written down.
-/

namespace PacketBalance

namespace ConfigFile

/-! ## What is accepted -/

section Accepted

variable {conv : Yaml.Conversions} {α : Type} {as : Yaml → Option α}
variable {node n root : Yaml} {key place : String} {allowed : List String}

def Knows (conv : Yaml.Conversions) (allowed : List String) (node : Yaml) : Prop :=
  ∃ entries, node = .map entries ∧ ∀ kv ∈ entries, ∃ key ∈ allowed, conv.string kv.1 = some key

theorem checkKey_eq_ok_iff :
    checkKey conv place allowed n = .ok () ↔ ∃ key ∈ allowed, conv.string n = some key := by
  unfold checkKey
  cases conv.string n with
  | none => simp
  | some key =>
      by_cases hmem : key ∈ allowed
      · simp [hmem]
      · simp [hmem]

theorem checkKeys_eq_ok_iff :
    checkKeys conv node place allowed = .ok () ↔ Knows conv allowed node := by
  cases node with
  | map entries =>
      simp only [checkKeys, Except.forM_eq_ok_iff, checkKey_eq_ok_iff, Knows, Yaml.map.injEq,
        exists_eq_left']
  | null => simp [checkKeys, Knows]
  | scalar text => simp [checkKeys, Knows]
  | seq items => simp [checkKeys, Knows]

theorem convert_eq_ok_iff {a : α} : convert as node key place = .ok a ↔ as node = some a := by
  unfold convert
  cases as node <;> simp

theorem withKey_eq_ok_iff {x : Except String α} {a : α} : withKey key x = .ok a ↔ x = .ok a :=
  Except.mapError_eq_ok_iff

theorem proto_of_parseProto {s : String} {proto : UInt8} (h : parseProto s place = .ok proto) :
    proto = 6 ∨ proto = 17 := by
  unfold parseProto at h
  split_ifs at h
  · exact .inl (Except.ok.inj h).symm
  · exact .inr (Except.ok.inj h).symm

theorem port_of_parsePortKey {portBe : UInt16} (h : parsePortKey conv n place = .ok portBe) :
    1 ≤ portFromBeOn .little portBe ∧ portFromBeOn .little portBe ≤ 65535 := by
  obtain ⟨port, -, hport⟩ := Except.bind_eq_ok_iff.mp h
  split_ifs at hport with hrange
  obtain ⟨hpos, hle⟩ := not_or.mp hrange
  have hlt : port.toInt.toNat < UInt16.size := by
    simp only [UInt16.size]
    omega
  rw [← portToBe_eq_iff.mp (Except.ok.inj hport), UInt16.toNat_ofNat_of_lt' hlt]
  omega

theorem parseReal_knows {r : RealConfig} (h : parseReal conv n place = .ok r) :
    Knows conv realKeys n := by
  obtain ⟨_, hkeys, -⟩ := Except.bind_eq_ok_iff.mp h
  exact checkKeys_eq_ok_iff.mp hkeys

structure VipKnown (conv : Yaml.Conversions) (n : Yaml) : Prop where
  keys : Knows conv vipKeys n
  reals : ∀ reals, n.find? conv "reals" = some (.seq reals) → ∀ r ∈ reals, Knows conv realKeys r

theorem parseReals_knows {rs : List RealConfig} (h : parseReals conv n place = .ok rs)
    {reals : List Yaml} (hreals : n.find? conv "reals" = some (.seq reals)) {r : Yaml}
    (hr : r ∈ reals) : Knows conv realKeys r := by
  rw [parseReals, hreals] at h
  obtain ⟨i, rc, hrc⟩ := Except.ok_of_mapM_zipIdx h hr
  exact parseReal_knows hrc

theorem parseVip_known {v : VipConfig} {i : Nat} (h : parseVip conv n i = .ok v) :
    VipKnown conv n ∧ v.spec.Writable .little := by
  simp only [parseVip, Except.bind_eq_ok_iff] at h
  obtain ⟨_, hkeys, _, -, _, -, portBe, hport, _, -, proto, hproto, _, -, reals, hreals, hv⟩ := h
  obtain rfl := Except.ok.inj hv
  obtain ⟨hpos, hle⟩ := port_of_parsePortKey hport
  exact ⟨⟨checkKeys_eq_ok_iff.mp hkeys, fun _ hseq _ => parseReals_knows hreals hseq⟩, hpos, hle,
    proto_of_parseProto hproto⟩

/-- No stray key in a document: in its own mapping, its sections, its VIPs and their reals. -/
structure Known (conv : Yaml.Conversions) (root : Yaml) : Prop where
  keys : Knows conv rootKeys root
  conntrack : ∀ ct, root.find? conv "conntrack" = some ct → Knows conv conntrackKeys ct
  metrics : ∀ m, root.find? conv "metrics" = some m → Knows conv metricsKeys m
  healthCheck : ∀ h, root.find? conv "health_check" = some h → Knows conv healthKeys h
  vips : ∀ vips, root.find? conv "vips" = some (.seq vips) → ∀ v ∈ vips, VipKnown conv v

theorem parseVips_known {vs : List VipConfig} (h : parseVips conv root = .ok vs)
    {vips : List Yaml} (hvips : root.find? conv "vips" = some (.seq vips)) {v : Yaml}
    (hv : v ∈ vips) : VipKnown conv v := by
  rw [parseVips, hvips] at h
  obtain ⟨i, vc, hvc⟩ := Except.ok_of_mapM_zipIdx h hv
  exact (parseVip_known hvc).1

theorem parseVips_writable {vs : List VipConfig} (h : parseVips conv root = .ok vs)
    {v : VipConfig} (hv : v ∈ vs) : v.spec.Writable .little := by
  unfold parseVips at h
  split at h
  · obtain rfl := Except.ok.inj h
    cases hv
  · obtain rfl := Except.ok.inj h
    cases hv
  · obtain ⟨⟨n, i⟩, -, hn⟩ := Except.exists_of_mapM h hv
    exact (parseVip_known hn).2
  · cases h

theorem parseConntrack_known {enabled : Bool} {size : Nat}
    (h : parseConntrack conv root = .ok (enabled, size)) :
    (∀ ct, root.find? conv "conntrack" = some ct → Knows conv conntrackKeys ct) ∧
      size ≤ 2 ^ 27 := by
  unfold parseConntrack at h
  cases hct : root.find? conv "conntrack" with
  | none =>
      rw [hct] at h
      obtain ⟨rfl, rfl⟩ := Prod.mk.inj (Except.ok.inj h)
      exact ⟨nofun, by decide⟩
  | some ct =>
      simp only [hct, Except.bind_eq_ok_iff] at h
      obtain ⟨_, hkeys, _, -, size', -, hsize⟩ := h
      split_ifs at hsize with hrange
      obtain ⟨rfl, rfl⟩ := Prod.mk.inj (Except.ok.inj hsize)
      refine ⟨fun ct' hct' => ?_, by omega⟩
      obtain rfl := Option.some.inj hct'
      exact checkKeys_eq_ok_iff.mp hkeys

theorem parseMetrics_known {fallback listen : String}
    (h : parseMetrics conv root fallback = .ok listen) :
    ∀ m, root.find? conv "metrics" = some m → Knows conv metricsKeys m := by
  intro m hm
  simp only [parseMetrics, hm, Except.bind_eq_ok_iff] at h
  obtain ⟨_, hkeys, -⟩ := h
  exact checkKeys_eq_ok_iff.mp hkeys

theorem getUint32_lt {fallback v : Nat} (h : getUint32 conv n key fallback = .ok v) :
    v < 2 ^ 32 := by
  unfold getUint32 at h
  cases hv : get conv conv.uint32 n key "health_check." (UInt32.ofNat fallback) with
  | error e => simp [hv, Except.map] at h
  | ok w =>
      simp only [hv, Except.map, Except.ok.injEq] at h
      rw [← h]
      exact w.toNat_lt

theorem parseHealthCheck_known {c : HealthCheckConfig}
    (h : parseHealthCheck conv root = .ok c) :
    (∀ hc, root.find? conv "health_check" = some hc → Knows conv healthKeys hc) ∧
      c.intervalMs < 2 ^ 32 ∧ c.fall < 2 ^ 32 ∧ c.rise < 2 ^ 32 := by
  unfold parseHealthCheck at h
  cases hhc : root.find? conv "health_check" with
  | none =>
      simp only [hhc, Except.ok.injEq] at h
      subst h
      exact ⟨nofun, by decide, by decide, by decide⟩
  | some hc =>
      simp only [hhc, Except.bind_eq_ok_iff] at h
      obtain ⟨_, hkeys, _, -, interval, hinterval, _, -, fall, hfall, rise, hrise, hc'⟩ := h
      obtain rfl := Except.ok.inj hc'
      refine ⟨fun hc'' heq => ?_, getUint32_lt hinterval, getUint32_lt hfall, getUint32_lt hrise⟩
      obtain rfl := Option.some.inj heq
      exact checkKeys_eq_ok_iff.mp hkeys

/-- The configurations that can be written down: those whose network is masked and whose
numbers fit what they are read into. -/
structure Writable (c : FileConfig) : Prop where
  encapLen : c.encapSrc.len ≤ 32
  encapSrc : c.encapSrc.Masked .little c.encapSrc.prefixBe
  conntrackSize : c.conntrackSize ≤ 2 ^ 27
  intervalMs : c.health.intervalMs < 2 ^ 32
  fall : c.health.fall < 2 ^ 32
  rise : c.health.rise < 2 ^ 32
  vips : ∀ v ∈ c.vips, v.spec.Writable .little

theorem validated_eq_ok_iff {cfg : Config} {p : Paths} {c : FileConfig} :
    validated cfg p = .ok c ↔ c.toConfig = cfg ∧ c.xdpMode = p.xdpMode ∧ c.socket = p.socket ∧
      c.pinPath = p.pinPath ∧ c.metricsListen = p.metricsListen := by
  unfold validated
  split
  · rename_i text herror
    refine iff_of_false nofun ?_
    rintro ⟨rfl, -⟩
    rw [c.valid] at herror
    cases herror
  · constructor
    · intro h
      obtain rfl := Except.ok.inj h
      exact ⟨rfl, rfl, rfl, rfl, rfl⟩
    · obtain ⟨⟨cfg', hvalid⟩, mode, socket, pinPath, listen⟩ := c
      rintro ⟨rfl, rfl, rfl, rfl, rfl⟩
      rfl

theorem parseDocument_known {c : FileConfig} (h : parseDocument conv root = .ok c) :
    Known conv root ∧ Writable c := by
  simp only [parseDocument, Except.bind_eq_ok_iff] at h
  obtain ⟨_, hkeys, _, -, _, -, _, -, _, -, _, -, _, -, encapSrc, hencap, _, -, _, -,
    ⟨enabled, size⟩, hct, _, -, _, -, _, hmetrics, health, hhealth, vips, hvips, hc⟩ := h
  obtain ⟨hcfg, -⟩ := validated_eq_ok_iff.mp hc
  obtain ⟨hctKnown, hsize⟩ := parseConntrack_known hct
  obtain ⟨hhealthKnown, hinterval, hfall, hrise⟩ := parseHealthCheck_known hhealth
  obtain ⟨_, _, _, hcidr, hmasked⟩ := parseCidr_eq_ok_iff.mp (withKey_eq_ok_iff.mp hencap)
  refine ⟨⟨checkKeys_eq_ok_iff.mp hkeys, hctKnown, parseMetrics_known hmetrics, hhealthKnown,
    fun _ hseq _ => parseVips_known hvips hseq⟩, ?_⟩
  constructor <;> rw [hcfg]
  · exact hcidr.le
  · exact hmasked.self
  · exact hsize
  · exact hinterval
  · exact hfall
  · exact hrise
  · exact fun _ => parseVips_writable hvips

end Accepted

/-! ## Writing -/

section Writing

variable {conv : Yaml.Conversions} (sp : Yaml.Spelling conv)

def renderReal (r : RealConfig) : Yaml :=
  sp.mapping [("address", sp.text (ipv4ToString r.addrBe)), ("weight", sp.nat r.weight)]

def protoName (proto : UInt8) : String := if proto = 6 then "tcp" else "udp"

def renderVip (v : VipConfig) : Yaml :=
  sp.mapping [("address", sp.text (ipv4ToString v.spec.addrBe)),
    ("port", sp.nat (portFromBeOn .little v.spec.portBe)),
    ("proto", sp.text (protoName v.spec.proto)), ("no_conntrack", sp.bool v.noConntrack),
    ("reals", .seq (v.reals.map (renderReal sp)))]

def renderHealthCheck (h : HealthCheckConfig) : Yaml :=
  sp.mapping [("enabled", sp.bool h.enabled), ("interval_ms", sp.nat h.intervalMs),
    ("timeout_ms", sp.nat h.timeoutMs), ("fall", sp.nat h.fall), ("rise", sp.nat h.rise)]

def render (c : FileConfig) : Yaml :=
  sp.mapping [("interface", sp.text c.interface), ("xdp_mode", sp.text (xdpModeName c.xdpMode)),
    ("hash", sp.text (Commands.hashModeName c.hash)),
    ("encap_src_prefix", sp.text (c.encapSrc.strOn .little)),
    ("next_hop", c.nextHopBe.elim .null fun a => sp.text (ipv4ToString a)),
    ("icmp_pmtu", sp.bool c.icmpPmtu),
    ("conntrack", sp.mapping [("enabled", sp.bool c.conntrackEnabled),
      ("size", sp.nat c.conntrackSize)]),
    ("socket", sp.text c.socket), ("pin_path", sp.text c.pinPath),
    ("metrics", sp.mapping [("listen", sp.text c.metricsListen)]),
    ("health_check", renderHealthCheck sp c.health),
    ("vips", .seq (c.vips.map (renderVip sp)))]

theorem knows_mapping {allowed : List String} {fields : List (String × Yaml)}
    (h : ∀ f ∈ fields, f.1 ∈ allowed) : Knows conv allowed (sp.mapping fields) := by
  refine ⟨_, rfl, fun kv hkv => ?_⟩
  obtain ⟨f, hf, rfl⟩ := List.mem_map.mp hkv
  exact ⟨f.1, h f hf, sp.string_text f.1⟩

theorem checkKeys_mapping (place : String) {allowed : List String}
    {fields : List (String × Yaml)} (h : fields.map Prod.fst = allowed) :
    checkKeys conv (sp.mapping fields) place allowed = .ok () :=
  checkKeys_eq_ok_iff.mpr (knows_mapping sp fun _ hf => h ▸ List.mem_map_of_mem hf)

section Lookup

variable {α : Type} {as : Yaml → Option α} {fields : List (String × Yaml)} {key : String}
variable {v : Yaml} {a : α}

theorem require_mapping (place : String) (hkey : fields.lookup key = some v) (ha : as v = some a) :
    require conv as (sp.mapping fields) key place = .ok a := by
  rw [require, sp.find?_mapping, hkey]
  exact convert_eq_ok_iff.mpr ha

theorem get_mapping (place : String) (fallback : α) (hkey : fields.lookup key = some v)
    (ha : as v = some a) : get conv as (sp.mapping fields) key place fallback = .ok a := by
  rw [get, sp.find?_mapping, hkey]
  exact convert_eq_ok_iff.mpr ha

end Lookup

theorem withKey_parseIpv4 (key : String) (a : UInt32) :
    withKey key (parseIpv4 .little (ipv4ToString a)) = .ok a :=
  withKey_eq_ok_iff.mpr (parseIpv4_ipv4ToString a)

theorem parseReal_render (place : String) {r : RealConfig} (h : r.weight < 2 ^ 31) :
    parseReal conv (renderReal sp r) place = .ok r := by
  have hweight : (Int32.ofNat r.weight).toInt = r.weight := Int32.toInt_ofNat_of_lt h
  simp only [parseReal, Except.bind_eq_ok_iff]
  refine ⟨(), checkKeys_mapping sp place rfl, _, require_mapping sp place rfl (sp.string_text _),
    _, withKey_parseIpv4 _ _, _, get_mapping sp place 1 rfl (sp.int_nat _ h), ?_⟩
  rw [hweight, if_neg (by omega), Int.toNat_natCast]

theorem parseReals_render (place : String) {v : VipConfig} (h : v.Ok) :
    parseReals conv (renderVip sp v) place = .ok v.reals := by
  have hfind : (renderVip sp v).find? conv "reals" = some (.seq (v.reals.map (renderReal sp))) :=
    sp.find?_mapping _ _
  rw [parseReals, hfind]
  refine Except.mapM_zipIdx_map (fun r hr i => parseReal_render sp _ ?_) 0
  exact (h.weight_le r hr).trans_lt (by decide)

theorem parsePortKey_render (place : String) {v : VipConfig} (h : v.spec.Writable .little) :
    parsePortKey conv (renderVip sp v) place = .ok v.spec.portBe := by
  have hpos := h.pos
  have hle := h.le
  have hint : (Int32.ofNat (portFromBeOn .little v.spec.portBe)).toInt =
      portFromBeOn .little v.spec.portBe := Int32.toInt_ofNat_of_lt (by omega)
  refine Except.bind_eq_ok_iff.mpr ⟨_, require_mapping sp place rfl (sp.int_nat _ (by omega)), ?_⟩
  rw [hint, if_neg (by omega), Int.toNat_natCast]
  refine congrArg Except.ok (portToBe_eq_iff.mpr (UInt16.toNat_ofNat_of_lt' ?_))
  simp only [UInt16.size]
  omega

theorem parseProto_protoName (place : String) {proto : UInt8} (h : proto = 6 ∨ proto = 17) :
    parseProto (protoName proto) place = .ok proto := by
  rcases h with rfl | rfl <;> rfl

theorem parseVip_render (i : Nat) {v : VipConfig} (hok : v.Ok) (h : v.spec.Writable .little) :
    parseVip conv (renderVip sp v) i = .ok v := by
  simp only [parseVip, Except.bind_eq_ok_iff]
  exact ⟨(), checkKeys_mapping sp _ rfl, _, require_mapping sp _ rfl (sp.string_text _), _,
    withKey_parseIpv4 _ _, _, parsePortKey_render sp _ h, _,
    require_mapping sp _ rfl (sp.string_text _), _, parseProto_protoName _ h.proto, _,
    get_mapping sp _ false rfl (sp.bool_bool _), _, parseReals_render sp _ hok, rfl⟩

theorem parseXdpMode_xdpModeName (m : XdpMode) : parseXdpMode (xdpModeName m) = .ok m := by
  cases m <;> rfl

theorem parseHashMode_hashModeName (m : HashMode) :
    parseHashMode (Commands.hashModeName m) = .ok m := by
  cases m <;> rfl

variable {c : FileConfig}

theorem parseNextHop_render : parseNextHop conv (render sp c) = .ok c.nextHopBe := by
  have hfind : (render sp c).find? conv "next_hop" =
      some (c.nextHopBe.elim .null fun a => sp.text (ipv4ToString a)) := sp.find?_mapping _ _
  rw [parseNextHop, hfind]
  cases c.nextHopBe with
  | none => rfl
  | some a =>
      simp only [Option.elim_some]
      split
      · rename_i hnone
        cases hnone
      · rename_i hnull
        exact absurd (Option.some.inj hnull) (sp.text_ne_null _)
      · rename_i v _ hv
        obtain rfl := Option.some.inj hv
        rw [sp.string_text]
        exact congrArg (Except.map some) (withKey_parseIpv4 _ a)

theorem parseConntrack_render (h : Writable c) :
    parseConntrack conv (render sp c) = .ok (c.conntrackEnabled, c.conntrackSize) := by
  have hpos := (validateConfig_iff.mp c.valid).1.conntrackSize
  have hle := h.conntrackSize
  have hint : (Int64.ofNat c.conntrackSize).toInt = c.conntrackSize :=
    Int64.toInt_ofNat_of_lt (by omega)
  have hfind : (render sp c).find? conv "conntrack" = some (sp.mapping
      [("enabled", sp.bool c.conntrackEnabled), ("size", sp.nat c.conntrackSize)]) :=
    sp.find?_mapping _ _
  rw [parseConntrack, hfind]
  simp only [Except.bind_eq_ok_iff]
  refine ⟨(), checkKeys_mapping sp _ rfl, _, get_mapping sp _ true rfl (sp.bool_bool _), _,
    get_mapping sp _ _ rfl (sp.longLong_nat _ (by omega)), ?_⟩
  rw [hint, if_neg (by omega), Int.toNat_natCast]

theorem parseMetrics_render (fallback : String) :
    parseMetrics conv (render sp c) fallback = .ok c.metricsListen := by
  have hfind : (render sp c).find? conv "metrics" =
      some (sp.mapping [("listen", sp.text c.metricsListen)]) := sp.find?_mapping _ _
  rw [parseMetrics, hfind]
  exact Except.bind_eq_ok_iff.mpr ⟨(), checkKeys_mapping sp _ rfl,
    get_mapping sp _ fallback rfl (sp.string_text _)⟩

theorem getUint32_mapping {fields : List (String × Yaml)} {key : String} {v : Nat}
    (fallback : Nat) (hkey : fields.lookup key = some (sp.nat v)) (hv : v < 2 ^ 32) :
    getUint32 conv (sp.mapping fields) key fallback = .ok v := by
  rw [getUint32, get_mapping sp _ _ hkey (sp.uint32_nat v hv), Except.map,
    UInt32.toNat_ofNat_of_lt' hv]

theorem parseHealthCheck_render (h : Writable c) :
    parseHealthCheck conv (render sp c) = .ok c.health := by
  have htimeout := (validateConfig_iff.mp c.valid).1.timeout
  have hfind : (render sp c).find? conv "health_check" = some (renderHealthCheck sp c.health) :=
    sp.find?_mapping _ _
  rw [parseHealthCheck, hfind]
  simp only [Except.bind_eq_ok_iff]
  exact ⟨(), checkKeys_mapping sp _ rfl, _, get_mapping sp _ true rfl (sp.bool_bool _), _,
    getUint32_mapping sp _ rfl h.intervalMs, _,
    getUint32_mapping sp _ rfl (htimeout.trans_lt h.intervalMs), _,
    getUint32_mapping sp _ rfl h.fall, _, getUint32_mapping sp _ rfl h.rise, rfl⟩

theorem parseVips_render (h : Writable c) : parseVips conv (render sp c) = .ok c.vips := by
  have hfind : (render sp c).find? conv "vips" = some (.seq (c.vips.map (renderVip sp))) :=
    sp.find?_mapping _ _
  rw [parseVips, hfind]
  exact Except.mapM_zipIdx_map
    (fun v hv i => parseVip_render sp i (c.ok.vip_ok v hv) (h.vips v hv)) 0

theorem parseCidr_strOn (h : Writable c) :
    parseCidr .little (c.encapSrc.strOn .little) = .ok c.encapSrc :=
  parseCidr_eq_ok_iff.mpr ⟨_, _, _, isCidr_strOn h.encapLen, h.encapSrc⟩

theorem parseDocument_render (h : Writable c) : parseDocument conv (render sp c) = .ok c := by
  simp only [parseDocument, Except.bind_eq_ok_iff]
  exact ⟨(), checkKeys_mapping sp _ rfl, _, require_mapping sp _ rfl (sp.string_text _), _,
    get_mapping sp _ _ rfl (sp.string_text _), _,
    withKey_eq_ok_iff.mpr (parseXdpMode_xdpModeName _), _,
    get_mapping sp _ _ rfl (sp.string_text _), _,
    withKey_eq_ok_iff.mpr (parseHashMode_hashModeName _), _,
    require_mapping sp _ rfl (sp.string_text _), _,
    withKey_eq_ok_iff.mpr (parseCidr_strOn h), _, parseNextHop_render sp, _,
    get_mapping sp _ _ rfl (sp.bool_bool _), _, parseConntrack_render sp h, _,
    get_mapping sp _ _ rfl (sp.string_text _), _, get_mapping sp _ _ rfl (sp.string_text _), _,
    parseMetrics_render sp _, _, parseHealthCheck_render sp h, _, parseVips_render sp h,
    validated_eq_ok_iff.mpr ⟨rfl, rfl, rfl, rfl, rfl⟩⟩

end Writing

/-! ## The format -/

/-- What `parse_config` returns is a valid configuration with a masked network, ports of 1 to
65535 and numbers in range, and each such configuration is what some document says.  No
document with an unknown key, at any level, is accepted. -/
theorem config_file_format {conv : Yaml.Conversions} (sp : Yaml.Spelling conv) :
    (∀ c : FileConfig, (∃ root, parseDocument conv root = .ok c) ↔ Writable c) ∧
    ∀ (root : Yaml) (c : FileConfig), parseDocument conv root = .ok c → Known conv root := by
  refine ⟨fun c => ⟨?_, fun h => ⟨render sp c, parseDocument_render sp h⟩⟩,
    fun root c hroot => (parseDocument_known hroot).1⟩
  rintro ⟨root, hroot⟩
  exact (parseDocument_known hroot).2

/-- 10.99.0.0/24 and one VIP on port 80. -/
def webFile : FileConfig where
  interface := "eth0"
  encapSrc := ⟨0x0000630a, 0x00ffffff, 24⟩
  vips := [{ spec := ⟨0x0100640a, 0x5000, 6⟩, reals := [{ addrBe := 0x1500000a }] }]
  valid := by decide +kernel

theorem webFile_writable : Writable webFile where
  encapLen := by decide
  encapSrc := ⟨by decide +kernel, by decide⟩
  conntrackSize := by decide
  intervalMs := by decide
  fall := by decide
  rise := by decide
  vips v hv := by
    obtain rfl := List.mem_singleton.mp hv
    exact ⟨by decide, by decide, by decide⟩

theorem config_file_format_web :
    ∃ root, parseDocument Yaml.plain root = .ok webFile ∧ Known Yaml.plain root := by
  obtain ⟨himage, hknown⟩ := config_file_format Yaml.plainSpelling
  obtain ⟨root, hroot⟩ := (himage webFile).mpr webFile_writable
  exact ⟨root, hroot, hknown root webFile hroot⟩

end ConfigFile

end PacketBalance
