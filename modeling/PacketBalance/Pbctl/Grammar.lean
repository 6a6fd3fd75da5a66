import PacketBalance.Pbctl
/-!
# The command lines of `pbctl`

What can be typed, as a grammar: options and arguments in any order, of an option given twice the
last value.  `build_request` takes exactly these lines and asks for what they say.
-/

namespace PacketBalance.Pbctl

open Commands Text Strto

/-! ## The grammar -/

/-- The words behind a command, sorted into arguments and options with their values. -/
inductive Sorts (valueFlags boolFlags : List String) :
    List String → List String → List (String × String) → Prop
  | nil : Sorts valueFlags boolFlags [] [] []
  | word (w : String) {words args : List String} {flags : List (String × String)}
      (h : isOption w = false) (hs : Sorts valueFlags boolFlags words args flags) :
      Sorts valueFlags boolFlags (w :: words) (w :: args) flags
  | flag (w : String) {words args : List String} {flags : List (String × String)}
      (h : isOption w = true) (hmem : w ∈ boolFlags)
      (hs : Sorts valueFlags boolFlags words args flags) :
      Sorts valueFlags boolFlags (w :: words) args ((w, "") :: flags)
  | value (w v : String) {words args : List String} {flags : List (String × String)}
      (h : isOption w = true) (hnot : w ∉ boolFlags) (hmem : w ∈ valueFlags)
      (hs : Sorts valueFlags boolFlags words args flags) :
      Sorts valueFlags boolFlags (w :: v :: words) args ((w, v) :: flags)

/-- The value that counts. -/
def lastValue (flags : List (String × String)) (f : String) : Option String :=
  flags.reverse.lookup f

/-- A text that `number` takes for `n`. -/
def Counts (s : String) (n : UInt64) : Prop := ∃ u, Reads s.toList u ∧ TakesNumber u n

/-- What the words behind the global options say. -/
inductive Says : List String → Command → Prop
  | ping : Says ["ping"] .ping
  | health : Says ["health"] .health
  | reload : Says ["reload"] .reload
  | config : Says ["config"] .config
  | vipAdd (vip : VipText) (words : List String) (flags : List (String × String))
      (h : Sorts [] ["--no-conntrack"] words [vip.text] flags) :
      Says ("vip" :: "add" :: words) (.vipAdd vip (lastValue flags "--no-conntrack").isSome)
  | vipDel (vip : VipText) : Says ["vip", "del", vip.text] (.vipDel vip)
  | vipList : Says ["vip", "list"] .vipList
  | realAdd (vip : VipText) (addr : String) (weight : Option UInt64) (words : List String)
      (flags : List (String × String)) (h : Sorts ["--weight"] [] words [vip.text, addr] flags)
      (hweight : Option.Rel Counts (lastValue flags "--weight") weight) :
      Says ("real" :: "add" :: words) (.realAdd vip addr weight)
  | realWeight (vip : VipText) (addr s : String) (weight : UInt64) (haddr : isOption addr = false)
      (hs : isOption s = false) (hweight : Counts s weight) :
      Says ["real", "weight", vip.text, addr, s] (.realWeight vip addr weight)
  | realDel (vip : VipText) (addr : String) (haddr : isOption addr = false) :
      Says ["real", "del", vip.text, addr] (.realDel vip addr)
  | realDrain (vip : VipText) (addr : String) (draining : Bool) (haddr : isOption addr = false) :
      Says ["real", Command.drainVerb draining, vip.text, addr] (.realDrain vip addr draining)
  | stats (vip : Option VipText) (words : List String) (flags : List (String × String))
      (h : Sorts ["--vip"] [] words [] flags)
      (hvip : lastValue flags "--vip" = vip.map VipText.text) :
      Says ("stats" :: words) (.stats vip)
  | flows (vip : Option VipText) (limit : Option UInt64) (words : List String)
      (flags : List (String × String)) (h : Sorts ["--vip", "--real", "--limit"] [] words [] flags)
      (hvip : lastValue flags "--vip" = vip.map VipText.text)
      (hlimit : Option.Rel Counts (lastValue flags "--limit") limit) :
      Says ("flows" :: words) (.flows vip (lastValue flags "--real") limit)
  | ringShow (vip : VipText) : Says ["ring", "show", vip.text] (.ringShow vip)

/-- The words that `main` keeps to itself. -/
def globalOptions : List String := ["--socket", "--json", "-h", "--help", "help"]

/-- What is typed, and the words that are left of it. -/
inductive Typed : List String → List String → Prop
  | nil : Typed [] []
  | socket (path : String) {argv words : List String} (h : Typed argv words) :
      Typed ("--socket" :: path :: argv) words
  | json {argv words : List String} (h : Typed argv words) : Typed ("--json" :: argv) words
  | word (w : String) {argv words : List String} (hw : w ∉ globalOptions)
      (h : Typed argv words) : Typed (w :: argv) (w :: words)

/-! ## The loops over the words -/

section Loops

variable {valueFlags boolFlags words args : List String} {flags : List (String × String)}

theorem Sorts.scanArgs (h : Sorts valueFlags boolFlags words args flags) (a : Args) :
    scanArgs valueFlags boolFlags a words =
      .ok ⟨a.positional ++ args, flags.reverse ++ a.flags⟩ := by
  induction h generalizing a with
  | nil => simp [Pbctl.scanArgs]
  | word w h hs ih =>
      rw [scanArgs.eq_def]
      simp [h, ih]
  | flag w h hmem hs ih =>
      rw [scanArgs.eq_def]
      simp [h, hmem, ih]
  | value w v h hnot hmem hs ih =>
      rw [scanArgs.eq_def]
      simp [h, hnot, hmem, ih]

theorem exists_sorts {a a' : Args} (h : scanArgs valueFlags boolFlags a words = .ok a') :
    ∃ args flags, Sorts valueFlags boolFlags words args flags ∧
      a' = ⟨a.positional ++ args, flags.reverse ++ a.flags⟩ := by
  fun_induction scanArgs valueFlags boolFlags a words with
  | case1 a =>
      obtain rfl := Except.ok.inj h
      exact ⟨[], [], .nil, by simp⟩
  | case2 a w words hw ih =>
      obtain ⟨args, flags, hs, rfl⟩ := ih h
      exact ⟨w :: args, flags, .word w (by simpa using hw) hs, by simp⟩
  | case3 a w words hw hmem ih =>
      obtain ⟨args, flags, hs, rfl⟩ := ih h
      exact ⟨args, (w, "") :: flags, .flag w (by simpa using hw) hmem hs, by simp⟩
  | case4 a w hw hnot hmem => cases h
  | case5 a w hw hnot hmem v words ih =>
      obtain ⟨args, flags, hs, rfl⟩ := ih h
      exact ⟨args, (w, v) :: flags, .value w v (by simpa using hw) hnot hmem hs, by simp⟩
  | case6 => cases h

theorem sorts_nil_iff : Sorts [] [] words args flags ↔
    args = words ∧ flags = [] ∧ ∀ w ∈ words, isOption w = false := by
  constructor
  · intro h
    induction h with
    | nil => simp
    | word w h hs ih => exact ⟨by rw [ih.1], ih.2.1, List.forall_mem_cons.mpr ⟨h, ih.2.2⟩⟩
    | flag w h hmem => cases hmem
    | value w v h hnot hmem => cases hmem
  · rintro ⟨rfl, rfl, h⟩
    induction args with
    | nil => exact .nil
    | cons w args ih =>
        exact .word w (h w List.mem_cons_self) (ih fun v hv => h v (List.mem_cons_of_mem w hv))

theorem Sorts.given {α : Type} (hs : Sorts valueFlags boolFlags words args flags) (f : String)
    (text : α → String) (o : Option α) (hf : isOption f = true)
    (hnot : f ∉ boolFlags) (hmem : f ∈ valueFlags) :
    Sorts valueFlags boolFlags ((o.elim [] fun x => [f, text x]) ++ words) args
      ((o.elim [] fun x => [(f, text x)]) ++ flags) := by
  cases o with
  | none => exact hs
  | some x => exact .value f (text x) hf hnot hmem hs

theorem exists_typed {g g' : Globals} {argv : List String} (h : scanGlobals g argv = .ok g') :
    ∃ words, Typed argv words ∧ g'.words = g.words ++ words := by
  fun_induction scanGlobals g argv with
  | case1 g =>
      obtain rfl := Except.ok.inj h
      exact ⟨[], .nil, by simp⟩
  | case2 g => cases h
  | case3 g path argv ih =>
      obtain ⟨words, ht, hwords⟩ := ih h
      exact ⟨words, .socket path ht, hwords⟩
  | case4 g argv hne ih =>
      obtain ⟨words, ht, hwords⟩ := ih h
      exact ⟨words, .json ht, hwords⟩
  | case5 => cases h
  | case6 g w argv hsocket hjson hhelp ih =>
      obtain ⟨words, ht, hwords⟩ := ih h
      have hw : w ∉ globalOptions := by
        simp only [not_or] at hhelp
        simp [globalOptions, hsocket, hjson, hhelp]
      exact ⟨w :: words, .word w hw ht, by simp [hwords]⟩

theorem Typed.exists_globals {argv : List String} (h : Typed argv words) (g : Globals) :
    ∃ g', scanGlobals g argv = .ok g' ∧ g'.words = g.words ++ words := by
  induction h generalizing g with
  | nil => exact ⟨g, rfl, by simp⟩
  | socket path h ih =>
      rw [scanGlobals.eq_def]
      exact ih _
  | json h ih =>
      rw [scanGlobals.eq_def]
      exact ih _
  | word w hw h ih =>
      obtain ⟨hsocket, hjson, hh, hhelp, hhelp'⟩ : w ≠ "--socket" ∧ w ≠ "--json" ∧ w ≠ "-h" ∧
          w ≠ "--help" ∧ w ≠ "help" := by
        simpa [globalOptions] using hw
      rw [scanGlobals.eq_def]
      simp only [hsocket, hjson, hh, hhelp, hhelp', or_self, if_false]
      obtain ⟨g', hg', hwords⟩ := ih { g with words := g.words ++ [w] }
      exact ⟨g', hg', by simp [hwords]⟩

theorem typed_words {words : List String} (h : ∀ w ∈ words, w ∉ globalOptions) :
    Typed words words := by
  induction words with
  | nil => exact .nil
  | cons w words ih =>
      exact .word w (h w List.mem_cons_self) (ih fun v hv => h v (List.mem_cons_of_mem w hv))

end Loops

/-! ## What is asked for -/

section Arguments

variable {a : Args}

theorem VipText.vipArg_eq (v : VipText) : vipArg v.text = .ok v.text := by
  rw [vipArg, v.parses]

theorem exists_vipText {s s' : String} (h : vipArg s = .ok s') :
    s' = s ∧ ∃ v : VipText, v.text = s := by
  rw [vipArg] at h
  split at h
  · cases h
  · rename_i spec hspec
    exact ⟨(Except.ok.inj h).symm, ⟨s, spec, hspec⟩, rfl⟩

theorem vipOption_eq_ok_iff {v : Option Json} : vipOption a = .ok v ↔
    ∃ vip : Option VipText, a.flag? "--vip" = vip.map VipText.text ∧
      v = vip.map fun t => .str t.text := by
  rw [vipOption]
  cases a.flag? "--vip" with
  | none =>
      constructor
      · intro h
        exact ⟨none, rfl, (Except.ok.inj h).symm⟩
      · rintro ⟨vip, hvip, rfl⟩
        rw [Option.map_eq_none_iff.mp hvip.symm]
        rfl
  | some s =>
      constructor
      · intro h
        obtain ⟨s', hs, hv⟩ := Except.bind_eq_ok_iff.mp h
        obtain ⟨rfl, t, rfl⟩ := exists_vipText hs
        exact ⟨some t, rfl, (Except.ok.inj hv).symm⟩
      · rintro ⟨vip, hvip, rfl⟩
        obtain ⟨t, rfl, rfl⟩ := Option.map_eq_some_iff.mp hvip.symm
        exact Except.bind_eq_ok_iff.mpr ⟨t.text, t.vipArg_eq, rfl⟩

theorem numberOption_eq_ok_iff {f what : String} {v : Option Json} :
    numberOption a f what = .ok v ↔
      ∃ n : Option UInt64, Option.Rel Counts (a.flag? f) n ∧ v = n.map fun n => .int n.toNat := by
  rw [numberOption]
  cases a.flag? f with
  | none =>
      constructor
      · intro h
        exact ⟨none, .none, (Except.ok.inj h).symm⟩
      · rintro ⟨n, ⟨⟩, rfl⟩
        rfl
  | some s =>
      constructor
      · intro h
        obtain ⟨n, hn, hv⟩ := Except.bind_eq_ok_iff.mp h
        exact ⟨some n, .some (number_eq_ok_iff.mp hn), (Except.ok.inj hv).symm⟩
      · rintro ⟨_, hn | _, rfl⟩
        exact Except.bind_eq_ok_iff.mpr ⟨_, number_eq_ok_iff.mpr ‹_›, rfl⟩

theorem expectCount_eq_ok {n : Nat} {u : Unit} (h : a.expectCount n = .ok u) :
    a.positional.length ≤ n := by
  rw [Args.expectCount] at h
  split at h
  · exact List.getElem?_eq_none_iff.mp ‹_›
  · cases h

theorem pos_eq_ok {i : Nat} {what w : String} (h : a.pos i what = .ok w) :
    a.positional[i]? = some w := by
  rw [Args.pos] at h
  split at h
  · cases h
  · rename_i hw
    rwa [← Except.ok.inj h]

variable {valueFlags boolFlags words args : List String} {flags : List (String × String)}

theorem Sorts.scanArgs_nil (h : Sorts valueFlags boolFlags words args flags) :
    Pbctl.scanArgs valueFlags boolFlags {} words = .ok ⟨args, flags.reverse⟩ := by
  simpa using h.scanArgs {}

theorem exists_args {n : Nat} {u : Unit} (h : scanArgs valueFlags boolFlags {} words = .ok a)
    (hcount : a.expectCount n = .ok u) :
    ∃ args flags, Sorts valueFlags boolFlags words args flags ∧ a = ⟨args, flags.reverse⟩ ∧
      args.length ≤ n := by
  obtain ⟨args, flags, hs, rfl⟩ := exists_sorts h
  have hlen := expectCount_eq_ok hcount
  exact ⟨args, flags, hs, by simp, by simpa using hlen⟩

theorem exists_words {n : Nat} {u : Unit} (h : scanArgs [] [] {} words = .ok a)
    (hcount : a.expectCount n = .ok u) :
    a = ⟨words, []⟩ ∧ words.length ≤ n ∧ ∀ w ∈ words, isOption w = false := by
  obtain ⟨args, flags, hs, rfl, hlen⟩ := exists_args h hcount
  obtain ⟨rfl, rfl, hwords⟩ := sorts_nil_iff.mp hs
  exact ⟨rfl, hlen, hwords⟩

theorem eq_one {l : List String} {x : String} (hlen : l.length ≤ 1) (hx : l[0]? = some x) :
    l = [x] := by
  match l, hlen with
  | [_], _ => simpa using hx

theorem eq_two {l : List String} {x y : String} (hlen : l.length ≤ 2) (hx : l[0]? = some x)
    (hy : l[1]? = some y) : l = [x, y] := by
  match l, hlen with
  | [_, _], _ => simp_all

theorem eq_three {l : List String} {x y z : String} (hlen : l.length ≤ 3) (hx : l[0]? = some x)
    (hy : l[1]? = some y) (hz : l[2]? = some z) : l = [x, y, z] := by
  match l, hlen with
  | [_, _, _], _ => simp_all

end Arguments

section Requests

variable {verb : String} {rest : List String} {req : Json}

theorem vipRequest_says (h : vipRequest verb rest = .ok req) :
    ∃ c, Says ("vip" :: verb :: rest) c ∧ req = c.request := by
  rw [vipRequest] at h
  split at h
  · rename_i hverb
    subst hverb
    simp only [Except.bind_eq_ok_iff] at h
    obtain ⟨a, ha, _, hcount, w, hw, s, hs, hreq⟩ := h
    obtain ⟨args, flags, hsorts, rfl, hlen⟩ := exists_args ha hcount
    obtain ⟨rfl, v, rfl⟩ := exists_vipText hs
    obtain rfl := eq_one hlen (pos_eq_ok hw)
    refine ⟨_, .vipAdd v rest flags hsorts, ?_⟩
    rw [← Except.ok.inj hreq, Command.request, Args.flag?, lastValue]
    cases flags.reverse.lookup "--no-conntrack" <;> rfl
  · split at h
    · rename_i hverb
      subst hverb
      simp only [Except.bind_eq_ok_iff] at h
      obtain ⟨a, ha, _, hcount, w, hw, s, hs, hreq⟩ := h
      obtain ⟨rfl, hlen, -⟩ := exists_words ha hcount
      obtain ⟨rfl, v, rfl⟩ := exists_vipText hs
      obtain rfl := eq_one hlen (pos_eq_ok hw)
      exact ⟨_, .vipDel v, (Except.ok.inj hreq).symm⟩
    · split at h
      · rename_i hverb
        subst hverb
        simp only [Except.bind_eq_ok_iff] at h
        obtain ⟨a, ha, _, hcount, hreq⟩ := h
        obtain ⟨-, hlen, -⟩ := exists_words ha hcount
        obtain rfl := List.eq_nil_of_length_eq_zero (Nat.le_zero.mp hlen)
        exact ⟨_, .vipList, (Except.ok.inj hreq).symm⟩
      · cases h

theorem realRequest_says (h : realRequest verb rest = .ok req) :
    ∃ c, Says ("real" :: verb :: rest) c ∧ req = c.request := by
  rw [realRequest] at h
  split at h
  · rename_i hverb
    subst hverb
    simp only [Except.bind_eq_ok_iff] at h
    obtain ⟨a, ha, _, hcount, w, hw, s, hs, addr, haddr, weight, hweight, hreq⟩ := h
    obtain ⟨args, flags, hsorts, rfl, hlen⟩ := exists_args ha hcount
    obtain ⟨rfl, v, rfl⟩ := exists_vipText hs
    obtain ⟨n, hn, rfl⟩ := numberOption_eq_ok_iff.mp hweight
    obtain rfl := eq_two hlen (pos_eq_ok hw) (pos_eq_ok haddr)
    exact ⟨_, .realAdd v addr n rest flags hsorts hn, (Except.ok.inj hreq).symm⟩
  · split at h
    · rename_i hverb
      subst hverb
      simp only [Except.bind_eq_ok_iff] at h
      obtain ⟨a, ha, _, hcount, w, hw, s, hs, addr, haddr, t, ht, n, hn, hreq⟩ := h
      obtain ⟨rfl, hlen, hwords⟩ := exists_words ha hcount
      obtain ⟨rfl, v, rfl⟩ := exists_vipText hs
      obtain rfl := eq_three hlen (pos_eq_ok hw) (pos_eq_ok haddr) (pos_eq_ok ht)
      exact ⟨_, .realWeight v addr t n (hwords _ (by simp)) (hwords _ (by simp))
        (number_eq_ok_iff.mp hn), (Except.ok.inj hreq).symm⟩
    · split at h
      · rename_i hverb
        simp only [Except.bind_eq_ok_iff] at h
        obtain ⟨a, ha, _, hcount, w, hw, s, hs, addr, haddr, hreq⟩ := h
        obtain ⟨rfl, hlen, hwords⟩ := exists_words ha hcount
        obtain ⟨rfl, v, rfl⟩ := exists_vipText hs
        obtain rfl := eq_two hlen (pos_eq_ok hw) (pos_eq_ok haddr)
        have hplain : isOption addr = false := hwords _ (by simp)
        obtain rfl | rfl | rfl := hverb
        · exact ⟨_, .realDel v addr hplain, (Except.ok.inj hreq).symm⟩
        · exact ⟨_, .realDrain v addr true hplain, (Except.ok.inj hreq).symm⟩
        · exact ⟨_, .realDrain v addr false hplain, (Except.ok.inj hreq).symm⟩
      · cases h

theorem statsRequest_says (h : statsRequest rest = .ok req) :
    ∃ c, Says ("stats" :: rest) c ∧ req = c.request := by
  simp only [statsRequest, Except.bind_eq_ok_iff] at h
  obtain ⟨a, ha, _, hcount, v, hv, hreq⟩ := h
  obtain ⟨args, flags, hsorts, rfl, hlen⟩ := exists_args ha hcount
  obtain ⟨vip, hvip, rfl⟩ := vipOption_eq_ok_iff.mp hv
  obtain rfl := List.eq_nil_of_length_eq_zero (Nat.le_zero.mp hlen)
  exact ⟨_, .stats vip rest flags hsorts hvip, (Except.ok.inj hreq).symm⟩

theorem flowsRequest_says (h : flowsRequest rest = .ok req) :
    ∃ c, Says ("flows" :: rest) c ∧ req = c.request := by
  simp only [flowsRequest, Except.bind_eq_ok_iff] at h
  obtain ⟨a, ha, _, hcount, v, hv, l, hl, hreq⟩ := h
  obtain ⟨args, flags, hsorts, rfl, hlen⟩ := exists_args ha hcount
  obtain ⟨vip, hvip, rfl⟩ := vipOption_eq_ok_iff.mp hv
  obtain ⟨n, hn, rfl⟩ := numberOption_eq_ok_iff.mp hl
  obtain rfl := List.eq_nil_of_length_eq_zero (Nat.le_zero.mp hlen)
  exact ⟨_, .flows vip n rest flags hsorts hvip hn, (Except.ok.inj hreq).symm⟩

theorem ringRequest_says (h : ringRequest verb rest = .ok req) :
    ∃ c, Says ("ring" :: verb :: rest) c ∧ req = c.request := by
  rw [ringRequest] at h
  split at h
  · cases h
  · rename_i hverb
    obtain rfl := not_not.mp hverb
    simp only [Except.bind_eq_ok_iff] at h
    obtain ⟨a, ha, _, hcount, w, hw, s, hs, hreq⟩ := h
    obtain ⟨rfl, hlen, -⟩ := exists_words ha hcount
    obtain ⟨rfl, v, rfl⟩ := exists_vipText hs
    obtain rfl := eq_one hlen (pos_eq_ok hw)
    exact ⟨_, .ringShow v, (Except.ok.inj hreq).symm⟩

theorem exists_says {words : List String} (h : buildRequest words = .ok req) :
    ∃ c, Says words c ∧ req = c.request := by
  cases words with
  | nil => cases h
  | cons noun rest =>
      simp only [buildRequest] at h
      split at h
      · rename_i hnoun
        cases rest with
        | nil =>
            have hreq := (Except.ok.inj h).symm
            obtain rfl | rfl | rfl | rfl := hnoun
            · exact ⟨_, .ping, hreq⟩
            · exact ⟨_, .health, hreq⟩
            · exact ⟨_, .reload, hreq⟩
            · exact ⟨_, .config, hreq⟩
        | cons w rest => cases h
      · -- without a verb there is no request
        cases rest with
        | nil =>
            split at h
            · cases h
            · split at h
              · cases h
              · split at h
                · rename_i hnoun
                  exact hnoun ▸ statsRequest_says h
                · split at h
                  · rename_i hnoun
                    exact hnoun ▸ flowsRequest_says h
                  · split at h <;> cases h
        | cons verb rest =>
            split at h
            · rename_i hnoun
              exact hnoun ▸ vipRequest_says h
            · split at h
              · rename_i hnoun
                exact hnoun ▸ realRequest_says h
              · split at h
                · rename_i hnoun
                  exact hnoun ▸ statsRequest_says h
                · split at h
                  · rename_i hnoun
                    exact hnoun ▸ flowsRequest_says h
                  · split at h
                    · rename_i hnoun
                      exact hnoun ▸ ringRequest_says h
                    · cases h

theorem bind_eq_of_ok {ε α β : Type} {x : Except ε α} {f : α → Except ε β} {a : α}
    {y : Except ε β} (hx : x = .ok a) (hf : f a = y) : x >>= f = y := by
  rw [hx]
  exact hf

theorem scanArgs_words {words : List String} (h : ∀ w ∈ words, isOption w = false) :
    scanArgs [] [] {} words = .ok ⟨words, []⟩ :=
  (sorts_nil_iff.mpr ⟨rfl, rfl, h⟩).scanArgs_nil

/-- A word that is neither an option nor a call for help. -/
structure IsPlain (w : String) : Prop where
  notOption : isOption w = false
  notHelp : w ≠ "-h" ∧ w ≠ "help"

theorem isPlain_of_isDigit {c : Char} {l : List Char} (h : w.toList = c :: l)
    (hc : c.isDigit = true) : IsPlain w := by
  have hdash : c ≠ '-' := by
    rintro rfl
    cases hc
  have hh : c ≠ 'h' := by
    rintro rfl
    cases hc
  refine ⟨?_, ?_, ?_⟩
  · rw [isOption, h]
    simp [List.isPrefixOf, hdash.symm]
  · rintro rfl
    exact hdash (List.cons.inj h).1.symm
  · rintro rfl
    exact hh (List.cons.inj h).1.symm

theorem isPlain_of_isDecimal {l : List Char} (rest : List Char) (hl : IsDecimal l)
    (h : w.toList = l ++ rest) : IsPlain w := by
  cases l with
  | nil => exact absurd rfl hl.ne_nil
  | cons c l => exact isPlain_of_isDigit h (hl.digits c List.mem_cons_self)

theorem isPlain_toString (n : Nat) : IsPlain (toString n) :=
  isPlain_of_isDecimal [] (isDecimal_toDigits n) (by simp)

theorem isPlain_of_dottedQuad {be : List UInt8} {addr : List Char} (rest : List Char)
    (haddr : DottedQuad addr be) (h : w.toList = addr ++ rest) : IsPlain w := by
  obtain ⟨runs, hlen, hruns, rfl, -⟩ := haddr
  cases runs with
  | nil => cases hlen
  | cons run runs =>
    rw [intercalate_dot_cons, List.append_assoc] at h
    exact isPlain_of_isDecimal _ (hruns run List.mem_cons_self).toIsDecimal h

theorem VipText.isPlain (v : VipText) : IsPlain v.text := by
  obtain ⟨addr, port, proto, hvip⟩ := VipSpec.isVip_of_parse v.parses
  exact isPlain_of_dottedQuad _ hvip.addr hvip.text

theorem isPlain_ipv4ToString (addr : UInt32) : IsPlain (ipv4ToString addr) :=
  isPlain_of_dottedQuad [] (dottedQuad_ipv4ToStringOn .little addr)
    (by rw [List.append_nil, ipv4ToStringOn_little])

theorem IsPlain.notMem_globalOptions (h : IsPlain w) : w ∉ globalOptions := by
  have hne : ∀ v, isOption v = true → w ≠ v := by
    rintro v hv rfl
    rw [h.notOption] at hv
    cases hv
  simp only [globalOptions, List.mem_cons, List.not_mem_nil, or_false, not_or]
  exact ⟨hne _ rfl, hne _ rfl, h.notHelp.1, hne _ rfl, h.notHelp.2⟩

theorem Says.buildRequest {words : List String} {c : Command} (h : Says words c) :
    buildRequest words = .ok c.request := by
  have hplain := fun v : VipText => v.isPlain.notOption
  cases h with
  | ping | health | reload | config | vipList => rfl
  | vipAdd vip words flags h =>
      refine bind_eq_of_ok h.scanArgs_nil <| bind_eq_of_ok rfl <| bind_eq_of_ok rfl <|
        bind_eq_of_ok vip.vipArg_eq ?_
      rw [Args.flag?, Command.request, lastValue]
      cases flags.reverse.lookup "--no-conntrack" <;> rfl
  | vipDel vip | ringShow vip =>
      exact bind_eq_of_ok (scanArgs_words (by simp [hplain])) <| bind_eq_of_ok rfl <|
        bind_eq_of_ok rfl <| bind_eq_of_ok vip.vipArg_eq rfl
  | realAdd vip addr weight words flags h hweight =>
      exact bind_eq_of_ok h.scanArgs_nil <| bind_eq_of_ok rfl <| bind_eq_of_ok rfl <|
        bind_eq_of_ok vip.vipArg_eq <| bind_eq_of_ok rfl <|
          bind_eq_of_ok (numberOption_eq_ok_iff.mpr ⟨weight, hweight, rfl⟩) rfl
  | realWeight vip addr s weight haddr hs hweight =>
      exact bind_eq_of_ok (scanArgs_words (by simp [hplain, haddr, hs])) <| bind_eq_of_ok rfl <|
        bind_eq_of_ok rfl <| bind_eq_of_ok vip.vipArg_eq <| bind_eq_of_ok rfl <|
          bind_eq_of_ok rfl <| bind_eq_of_ok (number_eq_ok_iff.mpr hweight) rfl
  | realDel vip addr haddr =>
      exact bind_eq_of_ok (scanArgs_words (by simp [hplain, haddr])) <| bind_eq_of_ok rfl <|
        bind_eq_of_ok rfl <| bind_eq_of_ok vip.vipArg_eq <| bind_eq_of_ok rfl rfl
  | realDrain vip addr draining haddr =>
      cases draining with
      | false | true =>
          exact bind_eq_of_ok (scanArgs_words (by simp [hplain, haddr])) <| bind_eq_of_ok rfl <|
            bind_eq_of_ok rfl <| bind_eq_of_ok vip.vipArg_eq <| bind_eq_of_ok rfl rfl
  | stats vip words flags h hvip =>
      exact bind_eq_of_ok h.scanArgs_nil <| bind_eq_of_ok rfl <|
        bind_eq_of_ok (vipOption_eq_ok_iff.mpr ⟨vip, hvip, rfl⟩) rfl
  | flows vip limit words flags h hvip hlimit =>
      exact bind_eq_of_ok h.scanArgs_nil <| bind_eq_of_ok rfl <|
        bind_eq_of_ok (vipOption_eq_ok_iff.mpr ⟨vip, hvip, rfl⟩) <|
          bind_eq_of_ok (numberOption_eq_ok_iff.mpr ⟨limit, hlimit, rfl⟩) rfl

end Requests

/-- `main` asks for what was typed, if it is a command. -/
theorem exists_invocation_iff {pbctlSocket : Option String} {argv : List String} {req : Json} :
    (∃ g, invocation pbctlSocket argv = .ok (g, req)) ↔
      ∃ words c, Typed argv words ∧ Says words c ∧ req = c.request := by
  constructor
  · rintro ⟨g, h⟩
    rw [invocation] at h
    split at h
    · cases h
    · rename_i hscan
      split at h
      · cases h
      · rename_i hreq
        obtain ⟨rfl, rfl⟩ := Prod.mk.inj (Except.ok.inj h)
        obtain ⟨words, htyped, hwords⟩ := exists_typed hscan
        rw [List.nil_append] at hwords
        obtain ⟨c, hsays, rfl⟩ := exists_says hreq
        exact ⟨words, c, htyped, hwords ▸ hsays, rfl⟩
  · rintro ⟨words, c, htyped, hsays, rfl⟩
    obtain ⟨g, hscan, hwords⟩ := htyped.exists_globals { socketPath := defaultSocket pbctlSocket }
    rw [List.nil_append] at hwords
    refine ⟨g, ?_⟩
    rw [invocation, hscan]
    simp only [hwords, hsays.buildRequest]

/-- The client accepts exactly the command lines of the grammar and asks for what they say.  The
daemon does what is asked for, unless an address is none or a number is too large: then it
refuses the request and changes nothing. -/
theorem command_line_understood (pbctlSocket : Option String) (argv : List String) (req : Json) :
    ((∃ g, invocation pbctlSocket argv = .ok (g, req)) ↔
      ∃ words c, Typed argv words ∧ Says words c ∧ req = c.request) ∧
    ∀ c : Command, req = c.request → ∀ h,
      (∀ act, c.action = some act → dispatch h req = act.run h) ∧
      (c.action = none → ∃ text, dispatch h req = throw (.api text)) := by
  refine ⟨exists_invocation_iff, ?_⟩
  rintro c rfl h
  rw [c.dispatch_request h]
  exact ⟨fun act hact => c.run_action hact h, fun hact => c.run_refused hact h⟩

def sampleVip : VipText where
  text := "198.51.100.1:080/tcp"
  spec := ⟨0x016433c6, 0x5000, 6⟩
  parses := by decide +kernel

/-- The second weight counts, and is too large for the daemon. -/
def sampleLine : List String :=
  ["real", "add", "--weight", "3", "198.51.100.1:080/tcp", "10.0.0.2", "--weight", "4294967296"]

theorem command_line_understood_sample :
    ∃ req, (∃ g, invocation none ("--json" :: sampleLine) = .ok (g, req)) ∧
      ∀ h, ∃ text, dispatch h req = throw (.api text) := by
  have hnum : Counts "4294967296" 4294967296 := number_eq_ok_iff.mp
    (by decide +kernel : number "4294967296" "weight" = .ok 4294967296)
  have htyped : Typed sampleLine sampleLine := typed_words (by decide)
  have hsorts : Sorts ["--weight"] [] (sampleLine.drop 2) [sampleVip.text, "10.0.0.2"]
      [("--weight", "3"), ("--weight", "4294967296")] :=
    .value _ _ rfl (by decide) (by decide) <| .word _ rfl <| .word _ rfl <|
      .value _ _ rfl (by decide) (by decide) .nil
  have hsays : Says sampleLine (.realAdd sampleVip "10.0.0.2" (some 4294967296)) :=
    .realAdd sampleVip "10.0.0.2" _ _ _ hsorts (.some hnum)
  obtain ⟨hline, hrun⟩ := command_line_understood none ("--json" :: sampleLine)
    (Command.realAdd sampleVip "10.0.0.2" (some 4294967296)).request
  exact ⟨_, hline.mpr ⟨_, _, .json htyped, hsays, rfl⟩,
    fun h => (hrun _ rfl h).2 (by decide +kernel)⟩

/-! ## Every command has a command line -/

theorem counts_toString (n : UInt64) : Counts (toString n.toNat) n := by
  refine ⟨bare (toString n.toNat).toList, reads_bare_iff.mpr ?_, takesNumber_bare_iff.mpr ?_⟩
  · simpa using isDecimal_toDigits n.toNat
  · simp

namespace Command

/-- The words that are taken as they are. -/
def addrs : Command → List String
  | realAdd _ addr _ | realWeight _ addr _ | realDel _ addr | realDrain _ addr _ => [addr]
  | flows _ real _ => real.toList
  | _ => []

theorem notMem_globalOptions_of_mem_words (c : Command) (haddrs : ∀ a ∈ c.addrs, IsPlain a) :
    ∀ w ∈ c.words, w ∉ globalOptions := by
  have hnum : ∀ n : UInt64, toString n.toNat ∉ globalOptions := fun n =>
    (isPlain_toString _).notMem_globalOptions
  have hvip : ∀ v : VipText, v.text ∉ globalOptions := fun v => v.isPlain.notMem_globalOptions
  have haddr : ∀ a ∈ c.addrs, a ∉ globalOptions := fun a ha => (haddrs a ha).notMem_globalOptions
  have hlit : ∀ w ∈ ["ping", "health", "reload", "config", "vip", "add", "del", "list", "real",
      "weight", "drain", "undrain", "stats", "flows", "ring", "show", "--no-conntrack",
      "--weight", "--vip", "--real", "--limit"], w ∉ globalOptions := by decide
  simp only [List.forall_mem_cons] at hlit
  cases c with
  | ping | health | reload | config | vipList | vipDel | ringShow => simp [words, hlit, hvip]
  | vipAdd vip noConntrack => cases noConntrack <;> simp [words, hlit, hvip]
  | realAdd vip addr weight =>
    have ha := haddr addr List.mem_cons_self
    cases weight with
    | none => simp [words, hlit, hvip, ha]
    | some n => simpa [words, hlit, hvip, ha] using hnum n
  | realWeight vip addr weight =>
    simpa [words, hlit, hvip, haddr addr List.mem_cons_self] using hnum weight
  | realDel vip addr => simp [words, hlit, hvip, haddr addr List.mem_cons_self]
  | realDrain vip addr draining =>
    cases draining <;> simp [words, drainVerb, hlit, hvip, haddr addr List.mem_cons_self]
  | stats vip => cases vip <;> simp [words, hlit, hvip]
  | flows vip real limit =>
    have hreal : ∀ w ∈ real.elim [] fun addr => ["--real", addr], w ∉ globalOptions := by
      cases real with
      | none => simp
      | some addr => simp [hlit, haddr addr List.mem_cons_self]
    have hlimit : ∀ w ∈ limit.elim [] fun n => ["--limit", toString n.toNat],
        w ∉ globalOptions := by
      cases limit with
      | none => simp
      | some n => simpa [hlit] using hnum n
    have hfilter : ∀ w ∈ vip.elim [] fun v => ["--vip", v.text], w ∉ globalOptions := by
      cases vip <;> simp [hlit, hvip]
    simp only [words, List.forall_mem_append, List.forall_mem_singleton]
    exact ⟨⟨⟨hlit.2.2.2.2.2.2.2.2.2.2.2.2.2.1, hfilter⟩, hreal⟩, hlimit⟩

theorem sorts_flows (vip : Option VipText) (real : Option String) (limit : Option UInt64) :
    ∃ flags, Sorts ["--vip", "--real", "--limit"] [] (words (.flows vip real limit)).tail [] flags ∧
      lastValue flags "--vip" = vip.map VipText.text ∧ lastValue flags "--real" = real ∧
      Option.Rel Counts (lastValue flags "--limit") limit := by
  have hsorts : Sorts ["--vip", "--real", "--limit"] [] _ _ _ :=
    ((Sorts.nil.given "--limit" (fun n : UInt64 => toString n.toNat) limit rfl (by decide)
      (by decide)).given "--real" id real rfl (by decide) (by decide)).given "--vip"
      VipText.text vip rfl (by decide) (by decide)
  rw [List.append_nil, ← List.append_assoc] at hsorts
  refine ⟨_, hsorts, ?_, ?_, ?_⟩
  · cases vip <;> cases real <;> cases limit <;> rfl
  · cases vip <;> cases real <;> cases limit <;> rfl
  · cases limit with
    | none => cases vip <;> cases real <;> exact .none
    | some n => cases vip <;> cases real <;> exact .some (counts_toString n)

theorem says_words (c : Command) (haddrs : ∀ a ∈ c.addrs, IsPlain a) : Says c.words c := by
  have hvip := fun v : VipText => v.isPlain.notOption
  cases c with
  | ping => exact .ping
  | health => exact .health
  | reload => exact .reload
  | config => exact .config
  | vipAdd vip noConntrack =>
      cases noConntrack with
      | false => exact .vipAdd vip _ [] (.word _ (hvip vip) .nil)
      | true =>
          exact .vipAdd vip _ [("--no-conntrack", "")]
            (.word _ (hvip vip) (.flag _ rfl (by decide) .nil))
  | vipDel vip => exact .vipDel vip
  | vipList => exact .vipList
  | realAdd vip addr weight =>
      have haddr := (haddrs addr List.mem_cons_self).notOption
      cases weight with
      | none =>
          exact .realAdd vip addr none _ [] (.word _ (hvip vip) (.word _ haddr .nil)) .none
      | some n =>
          exact .realAdd vip addr (some n) _ [("--weight", toString n.toNat)]
            (.word _ (hvip vip) (.word _ haddr (.value _ _ rfl (by decide) (by decide) .nil)))
            (.some (counts_toString n))
  | realWeight vip addr weight =>
      exact .realWeight vip addr _ weight (haddrs addr List.mem_cons_self).notOption
        (isPlain_toString _).notOption (counts_toString weight)
  | realDel vip addr => exact .realDel vip addr (haddrs addr List.mem_cons_self).notOption
  | realDrain vip addr draining =>
      exact .realDrain vip addr draining (haddrs addr List.mem_cons_self).notOption
  | stats vip =>
      cases vip with
      | none => exact .stats none _ [] .nil rfl
      | some v =>
          exact .stats (some v) _ [("--vip", v.text)]
            (.value _ _ rfl (by decide) (by decide) .nil) rfl
  | flows vip real limit =>
      obtain ⟨flags, hsorts, hvip, hreal, hlimit⟩ := sorts_flows vip real limit
      have hsays := Says.flows vip limit _ flags hsorts hvip hlimit
      rwa [hreal] at hsays
  | ringShow vip => exact .ringShow vip

theorem exists_invocation (c : Command) (haddrs : ∀ a ∈ c.addrs, IsPlain a)
    (pbctlSocket : Option String) : ∃ g, invocation pbctlSocket c.words = .ok (g, c.request) :=
  exists_invocation_iff.mpr ⟨c.words, c,
    typed_words (c.notMem_globalOptions_of_mem_words haddrs), c.says_words haddrs, rfl⟩

theorem isObject_request (c : Command) : c.request.isObject = true := by
  cases c <;> rfl

end Command

end PacketBalance.Pbctl
