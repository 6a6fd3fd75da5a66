import PacketBalance.ConfigFile
/-!
# How the configuration file is refused

`config.h` promises a `std::runtime_error` that names the key.  Two conversions stand outside of
every `try`: that of a mapping's keys and that of the next hop.
-/

namespace PacketBalance

namespace ConfigFile

/-! ## What is refused -/

section Refused

variable {conv : Yaml.Conversions} {α β : Type} {as : Yaml → Option α}
variable {node n root : Yaml} {key place : String} {allowed : List String} {P Q : Prop}

def Own (text : String) : Prop := ∃ rest, text = "config: " ++ rest

theorem Own.append {text : String} (h : Own text) (more : String) : Own (text ++ more) := by
  obtain ⟨rest, rfl⟩ := h
  exact ⟨rest ++ more, String.append_assoc⟩

/-- A computation fails with a text of the parser's own, or, where `P` holds, with an exception
of the YAML library. -/
def FailsOn (P : Prop) (x : Except ConfigError α) : Prop :=
  ∀ e, x = .error e → (∃ text, e = .runtime text ∧ Own text) ∨ e = .yaml ∧ P

theorem FailsOn.ok (a : α) : FailsOn P (.ok a : Except ConfigError α) := nofun

theorem FailsOn.runtime {text : String} (h : Own text) :
    FailsOn P (.error (.runtime text) : Except ConfigError α) := by
  rintro e ⟨⟩
  exact .inl ⟨text, rfl, h⟩

theorem FailsOn.yaml (h : P) : FailsOn P (.error .yaml : Except ConfigError α) := by
  rintro e ⟨⟩
  exact .inr ⟨rfl, h⟩

theorem FailsOn.mono {x : Except ConfigError α} (h : FailsOn P x) (hPQ : P → Q) : FailsOn Q x :=
  fun e he => (h e he).imp_right fun ⟨hyaml, hP⟩ => ⟨hyaml, hPQ hP⟩

theorem FailsOn.bind {x : Except ConfigError α} {f : α → Except ConfigError β} (hx : FailsOn P x)
    (hf : ∀ a, FailsOn P (f a)) : FailsOn P (x >>= f) := by
  intro e he
  obtain he | ⟨a, -, he⟩ := Except.bind_eq_error_iff.mp he
  · exact hx e he
  · exact hf a e he

theorem FailsOn.map {x : Except ConfigError α} (hx : FailsOn P x) (f : α → β) :
    FailsOn P (x.map f) := by
  cases x with
  | error e => exact fun e' he' => hx e' (by cases he'; rfl)
  | ok a => exact .ok (f a)

theorem FailsOn.mapM {xs : List β} {f : β → Except ConfigError α}
    (h : ∀ x ∈ xs, FailsOn P (f x)) : FailsOn P (xs.mapM f) := by
  intro e he
  obtain ⟨x, hx, hfail⟩ := Except.exists_of_mapM_eq_error he
  exact h x hx e hfail

def Untexted (conv : Yaml.Conversions) (node : Yaml) : Prop :=
  ∃ entries, node = .map entries ∧ ∃ kv ∈ entries, conv.string kv.1 = none

theorem checkKeys_failsOn : FailsOn (Untexted conv node) (checkKeys conv node place allowed) := by
  have hnot : Own ("config: `" ++ place ++ "` must be a mapping") :=
    (Own.append ⟨"`", rfl⟩ place).append _
  cases node with
  | map entries =>
      intro e he
      obtain ⟨kv, hkv, hfail⟩ := Except.exists_of_forM_eq_error he
      revert hfail
      unfold checkKey
      cases hkey : conv.string kv.1 with
      | none => exact fun h => FailsOn.yaml ⟨entries, rfl, kv, hkv, hkey⟩ e h
      | some key =>
          by_cases hmem : key ∈ allowed
          · simp [hmem]
          · simp only [hmem, if_false]
            exact FailsOn.runtime (((Own.append ⟨"unknown key `", rfl⟩ place).append _).append _) e
  | null => exact .runtime hnot
  | scalar text => exact .runtime hnot
  | seq items => exact .runtime hnot

theorem convert_failsOn : FailsOn P (convert as n key place) := by
  unfold convert
  cases as n with
  | none => exact .runtime (((Own.append ⟨"bad value for `", rfl⟩ place).append _).append _)
  | some a => exact .ok a

theorem get_failsOn {fallback : α} : FailsOn P (get conv as n key place fallback) := by
  unfold get
  cases n.find? conv key with
  | none => exact .ok fallback
  | some v => exact convert_failsOn

theorem require_failsOn : FailsOn P (require conv as n key place) := by
  unfold require
  cases n.find? conv key with
  | none => exact .runtime (((Own.append ⟨"`", rfl⟩ place).append _).append _)
  | some v => exact convert_failsOn

theorem withKey_failsOn {x : Except String α} : FailsOn P (withKey key x) := by
  cases x with
  | error e => exact .runtime (((Own.append ⟨"`", rfl⟩ key).append _).append _)
  | ok a => exact .ok a

theorem parseReal_failsOn : FailsOn (Untexted conv n) (parseReal conv n place) := by
  refine checkKeys_failsOn.bind fun _ => require_failsOn.bind fun _ => withKey_failsOn.bind fun _ =>
    get_failsOn.bind fun w => ?_
  split_ifs
  · exact .runtime ((Own.append ⟨"`", rfl⟩ place).append _)
  · exact .ok _

theorem parsePortKey_failsOn : FailsOn P (parsePortKey conv n place) := by
  refine require_failsOn.bind fun port => ?_
  split_ifs
  · exact .runtime ((Own.append ⟨"`", rfl⟩ place).append _)
  · exact .ok _

theorem parseProto_failsOn {s : String} : FailsOn P (parseProto s place) := by
  unfold parseProto
  split_ifs
  · exact .ok _
  · exact .ok _
  · exact .runtime (((Own.append ⟨"`", rfl⟩ place).append _).append _)

/-- A VIP or one of its reals has a key that is not text. -/
inductive VipUntexted (conv : Yaml.Conversions) (n : Yaml) : Prop
  | keys (h : Untexted conv n)
  | real (reals : List Yaml) (hreals : n.find? conv "reals" = some (.seq reals)) (r : Yaml)
      (hr : r ∈ reals) (h : Untexted conv r)

theorem parseReals_failsOn : FailsOn (VipUntexted conv n) (parseReals conv n place) := by
  have hnot : Own ("config: `" ++ place ++ "reals` must be a list") :=
    (Own.append ⟨"`", rfl⟩ place).append _
  unfold parseReals
  split
  · exact .ok _
  · exact .ok _
  · rename_i reals hreals
    refine .mapM fun ri hri => parseReal_failsOn.mono fun h => ?_
    exact .real reals hreals ri.1 (List.fst_mem_of_mem_zipIdx hri) h
  · exact .runtime hnot

theorem parseVip_failsOn {i : Nat} : FailsOn (VipUntexted conv n) (parseVip conv n i) :=
  (checkKeys_failsOn.mono .keys).bind fun _ => require_failsOn.bind fun _ =>
    withKey_failsOn.bind fun _ => parsePortKey_failsOn.bind fun _ => require_failsOn.bind fun _ =>
    parseProto_failsOn.bind fun _ => get_failsOn.bind fun _ => parseReals_failsOn.bind fun _ =>
    .ok _

/-- The documents on which an exception of the YAML library gets out of the parser. -/
inductive Escapes (conv : Yaml.Conversions) (root : Yaml) : Prop
  | keys (h : Untexted conv root)
  | nextHop (v : Yaml) (hv : root.find? conv "next_hop" = some v) (h : conv.string v = none)
  | conntrack (ct : Yaml) (hct : root.find? conv "conntrack" = some ct) (h : Untexted conv ct)
  | metrics (m : Yaml) (hm : root.find? conv "metrics" = some m) (h : Untexted conv m)
  | healthCheck (hc : Yaml) (hhc : root.find? conv "health_check" = some hc)
      (h : Untexted conv hc)
  | vip (vips : List Yaml) (hvips : root.find? conv "vips" = some (.seq vips)) (v : Yaml)
      (hv : v ∈ vips) (h : VipUntexted conv v)

theorem parseVips_failsOn : FailsOn (Escapes conv root) (parseVips conv root) := by
  unfold parseVips
  split
  · exact .ok _
  · exact .ok _
  · rename_i vips hvips
    refine .mapM fun vi hvi => parseVip_failsOn.mono fun h => ?_
    exact .vip vips hvips vi.1 (List.fst_mem_of_mem_zipIdx hvi) h
  · exact .runtime ⟨"`vips` must be a list", rfl⟩

theorem parseNextHop_failsOn : FailsOn (Escapes conv root) (parseNextHop conv root) := by
  unfold parseNextHop
  split
  · exact .ok _
  · exact .ok _
  · rename_i v _ hv
    cases hs : conv.string v with
    | none => exact .yaml (.nextHop v hv hs)
    | some s => exact withKey_failsOn.map some

theorem parseConntrack_failsOn : FailsOn (Escapes conv root) (parseConntrack conv root) := by
  unfold parseConntrack
  split
  · exact .ok _
  · rename_i ct hct
    refine (checkKeys_failsOn.mono (.conntrack ct hct)).bind fun _ => get_failsOn.bind fun _ =>
      get_failsOn.bind fun size => ?_
    split_ifs
    · exact .runtime ⟨"`conntrack.size` must be in 1..134217728", rfl⟩
    · exact .ok _

theorem parseMetrics_failsOn {fallback : String} :
    FailsOn (Escapes conv root) (parseMetrics conv root fallback) := by
  unfold parseMetrics
  split
  · exact .ok _
  · rename_i m hm
    exact (checkKeys_failsOn.mono (.metrics m hm)).bind fun _ => get_failsOn

theorem parseHealthCheck_failsOn :
    FailsOn (Escapes conv root) (parseHealthCheck conv root) := by
  unfold parseHealthCheck
  split
  · exact .ok _
  · rename_i hc hhc
    have hnum : ∀ key fallback, FailsOn (Escapes conv root) (getUint32 conv hc key fallback) :=
      fun _ _ => get_failsOn.map _
    exact (checkKeys_failsOn.mono (.healthCheck hc hhc)).bind fun _ => get_failsOn.bind fun _ =>
      (hnum _ _).bind fun _ => (hnum _ _).bind fun _ => (hnum _ _).bind fun _ =>
      (hnum _ _).bind fun _ => .ok _

theorem own_of_validateReals {spec : VipSpec} {reals : List RealConfig}
    {seen all : Finset UInt32} {text : String}
    (h : validateReals spec reals seen all = .error text) : Own text := by
  induction reals generalizing seen all with
  | nil => cases h
  | cons r rest ih =>
      unfold validateReals at h
      split_ifs at h
      · exact Except.error.inj h ▸ Own.append ⟨"real 0.0.0.0 on ", rfl⟩ _
      · exact Except.error.inj h ▸
          ((Own.append ⟨"duplicate real ", rfl⟩ _).append _).append _
      · exact Except.error.inj h ▸ ((Own.append ⟨"weight of ", rfl⟩ _).append _).append _
      · exact ih h

theorem own_of_validateVips {vips : List VipConfig} {seen : Finset VipSpec}
    {all : Finset UInt32} {text : String} (h : validateVips vips seen all = .error text) :
    Own text := by
  induction vips generalizing seen all with
  | nil => cases h
  | cons v rest ih =>
      unfold validateVips at h
      split at h
      · exact Except.error.inj h ▸ Own.append ⟨"duplicate vip ", rfl⟩ _
      · split at h
        · rename_i hreals
          exact Except.error.inj h ▸ own_of_validateReals hreals
        · exact ih h

theorem own_of_validateConfig {cfg : Config} {text : String}
    (h : validateConfig cfg = .error text) : Own text := by
  unfold validateConfig at h
  split_ifs at h
  · exact Except.error.inj h ▸ ⟨"`interface` is required", rfl⟩
  · exact Except.error.inj h ▸ ⟨"`encap_src_prefix` is required and must not be /0", rfl⟩
  · exact Except.error.inj h ▸ ⟨"conntrack.size must be > 0", rfl⟩
  · exact Except.error.inj h ▸ ⟨"health_check values must be > 0", rfl⟩
  · exact Except.error.inj h ▸ ⟨"health_check.timeout_ms must be <= interval_ms", rfl⟩
  · exact Except.error.inj h ▸ (Own.append ⟨"too many vips (max ", rfl⟩ _).append _
  · split at h
    · rename_i hvips
      exact Except.error.inj h ▸ own_of_validateVips hvips
    · split_ifs at h
      exact Except.error.inj h ▸ (Own.append ⟨"too many distinct reals (max ", rfl⟩ _).append _

theorem validated_failsOn {cfg : Config} {p : Paths} : FailsOn P (validated cfg p) := by
  unfold validated
  split
  · rename_i hvalid
    exact .runtime (own_of_validateConfig hvalid)
  · exact .ok _

theorem parseDocument_failsOn : FailsOn (Escapes conv root) (parseDocument conv root) :=
  (checkKeys_failsOn.mono .keys).bind fun _ => require_failsOn.bind fun _ =>
    get_failsOn.bind fun _ => withKey_failsOn.bind fun _ => get_failsOn.bind fun _ =>
    withKey_failsOn.bind fun _ => require_failsOn.bind fun _ => withKey_failsOn.bind fun _ =>
    parseNextHop_failsOn.bind fun _ => get_failsOn.bind fun _ => parseConntrack_failsOn.bind
    fun _ => get_failsOn.bind fun _ => get_failsOn.bind fun _ => parseMetrics_failsOn.bind
    fun _ => parseHealthCheck_failsOn.bind fun _ => parseVips_failsOn.bind fun _ =>
    validated_failsOn

end Refused

/-- What `parse_config` refuses it refuses with a text of its own, unless the text of a key or
of the next hop cannot be had: then an exception of the YAML library gets out. -/
theorem config_errors_own (conv : Yaml.Conversions) (root : Yaml) (e : ConfigError)
    (h : parseDocument conv root = .error e) :
    (∃ rest, e = .runtime ("config: " ++ rest)) ∨ e = .yaml ∧ Escapes conv root := by
  obtain ⟨text, htext, rest, hrest⟩ | hyaml := parseDocument_failsOn e h
  · exact .inl ⟨rest, hrest ▸ htext⟩
  · exact .inr hyaml

def hopsFile : Yaml :=
  Yaml.plainSpelling.mapping [("interface", .scalar "eth0"),
    ("encap_src_prefix", .scalar "10.99.0.0/24"), ("next_hop", .seq [.scalar "10.0.0.1"])]

theorem config_errors_own_hops :
    parseDocument Yaml.plain hopsFile = .error .yaml ∧ Escapes Yaml.plain hopsFile := by
  have hfails : parseDocument Yaml.plain hopsFile = .error .yaml := rfl
  obtain ⟨rest, hrest⟩ | ⟨-, hescapes⟩ := config_errors_own Yaml.plain hopsFile .yaml hfails
  · cases hrest
  · exact ⟨hfails, hescapes⟩

end ConfigFile

end PacketBalance
