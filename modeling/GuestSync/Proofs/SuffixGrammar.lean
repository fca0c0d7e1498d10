/-
# GuestSync.Proofs.SuffixGrammar -- the suffixes of rules are those of names

Two tests know what a suffix is. A file name has one if its last dot is neither its first
character nor its last; a layout accepts one for a rule if it is a dot with something behind
it that has no dot. They fit: what is accepted is what some name has. So every rule of an
accepted layout applies to every name that ends in its suffix and has something in front of
it, and no name ends in two suffixes of that kind.

Both tests go through octets and cut at the places of dots. A dot is a character of one octet,
and no other character has that octet, so each cut is between characters.
-/
import GuestSync.Layout
import GuestSync.Proofs.LineDecomposition

namespace GuestSync

namespace Suffix

/-! ## The form of a suffix -/

/-- The text is a dot and then a text that is not empty and has no dot. -/
def IsSuffix (s : String) : Prop := ∃ ext : String, ext ≠ "" ∧ '.' ∉ ext.toList ∧ s = "." ++ ext

theorem isSuffix_iff {s : String} :
    IsSuffix s ↔ ∃ c ext, s.toList = '.' :: c :: ext ∧ '.' ∉ c :: ext := by
  constructor
  · rintro ⟨ext, hne, hdot, rfl⟩
    obtain ⟨c, r, hext⟩ := List.exists_cons_of_ne_nil (mt String.toList_eq_nil_iff.mp hne)
    exact ⟨c, r, by simp [hext], hext ▸ hdot⟩
  · rintro ⟨c, ext, hs, hdot⟩
    refine ⟨String.ofList (c :: ext), ?_, ?_, ?_⟩
    · intro h
      have hnil := congrArg String.toList h
      simp at hnil
    · rwa [String.toList_ofList]
    · apply String.toList_inj.mp
      simpa using hs

theorem wellFormed_iff {s : String} : wellFormed s = true ↔ IsSuffix s := by
  rw [isSuffix_iff]
  unfold wellFormed
  split
  · next c ext hs =>
    rw [hs]
    simp
  · next hs =>
    simp only [Bool.false_eq_true, false_iff]
    rintro ⟨c, ext, heq, -⟩
    exact hs c ext heq

/-! ## The last dot -/

/-- A text has no dot, or it has a last one. -/
theorem dot_cases (cs : List Char) :
    '.' ∉ cs ∨ ∃ front ext, cs = front ++ '.' :: ext ∧ '.' ∉ ext := by
  induction cs with
  | nil => exact .inl (by simp)
  | cons c r ih =>
    rcases ih with hr | ⟨front, ext, rfl, hext⟩
    · by_cases hc : c = '.'
      · exact .inr ⟨[], r, by simp [hc], hr⟩
      · exact .inl (by simpa [hr] using Ne.symm hc)
    · exact .inr ⟨c :: front, ext, rfl, hext⟩

theorem fromLastDot_of_no_dot {cs : List Char} (h : '.' ∉ cs) : fromLastDot cs = none := by
  induction cs with
  | nil => rfl
  | cons c r ih =>
    rw [List.mem_cons, not_or] at h
    rw [fromLastDot, ih h.2]
    exact if_neg (Ne.symm h.1)

theorem fromLastDot_at_dot (front : List Char) {ext : List Char} (h : '.' ∉ ext) :
    fromLastDot (front ++ '.' :: ext) = some ('.' :: ext) := by
  induction front with
  | nil => rw [List.nil_append, fromLastDot, fromLastDot_of_no_dot h, if_pos rfl]
  | cons c front ih => rw [List.cons_append, fromLastDot, ih]

section Names

variable {name s stem stem' s' : String} {front ext : List Char}

theorem ofName_of_no_dot (h : '.' ∉ name.toList) : ofName name = none := by
  unfold ofName
  split
  · rfl
  · next hname =>
    rw [hname, List.mem_cons, not_or] at h
    rw [fromLastDot_of_no_dot h.2]

/-- The last dot starts a suffix if something stands on either side of it. -/
theorem ofName_at_dot (hname : name.toList = front ++ '.' :: ext) (hext : '.' ∉ ext) :
    ofName name =
      if front = [] ∨ ext = [] then none else some (String.ofList ('.' :: ext)) := by
  unfold ofName
  rw [hname]
  cases front with
  | nil => simp [fromLastDot_of_no_dot hext]
  | cons c front =>
    simp only [List.cons_append, fromLastDot_at_dot front hext]
    cases ext <;> simp

theorem ofName_append (hstem : stem ≠ "") (hs : IsSuffix s) : ofName (stem ++ s) = some s := by
  obtain ⟨c, ext, hlist, hdot⟩ := isSuffix_iff.mp hs
  have hname : (stem ++ s).toList = stem.toList ++ '.' :: c :: ext := by
    rw [String.toList_append, hlist]
  have hfront : ¬ (stem.toList = [] ∨ c :: ext = []) := by simpa using hstem
  rw [ofName_at_dot hname hdot, if_neg hfront, ← hlist, String.ofList_toList]

/-- A name has a suffix if it is that suffix with something in front of it. -/
theorem ofName_eq_some_iff :
    ofName name = some s ↔ ∃ stem, stem ≠ "" ∧ IsSuffix s ∧ name = stem ++ s := by
  constructor
  · intro h
    rcases dot_cases name.toList with hno | ⟨front, ext, hname, hext⟩
    · simp [ofName_of_no_dot hno] at h
    · rw [ofName_at_dot hname hext, Option.ite_none_left_eq_some, not_or] at h
      obtain ⟨⟨hfront, hne⟩, hs⟩ := h
      obtain ⟨c, r, rfl⟩ := List.exists_cons_of_ne_nil hne
      obtain rfl := Option.some.inj hs
      refine ⟨String.ofList front, by simpa using hfront, ?_, ?_⟩
      · exact isSuffix_iff.mpr ⟨c, r, String.toList_ofList, hext⟩
      · rw [← String.toList_inj, hname]
        simp
  · rintro ⟨stem, hstem, hs, rfl⟩
    exact ofName_append hstem hs

/-- What is accepted for a rule is what some name has. -/
theorem wellFormed_iff_exists : wellFormed s = true ↔ ∃ name, ofName name = some s := by
  rw [wellFormed_iff]
  constructor
  · intro hs
    exact ⟨"a" ++ s, ofName_append (by decide) hs⟩
  · rintro ⟨name, hname⟩
    obtain ⟨stem, -, hs, -⟩ := ofName_eq_some_iff.mp hname
    exact hs

/-- Whatever stands in front of a suffix, it starts at the last dot. -/
theorem IsSuffix.fromLastDot (hs : IsSuffix s) (stem : String) :
    Suffix.fromLastDot (stem ++ s).toList = some s.toList := by
  obtain ⟨c, ext, hlist, hdot⟩ := isSuffix_iff.mp hs
  rw [String.toList_append, hlist, fromLastDot_at_dot _ hdot]

/-- A text ends in one suffix only. -/
theorem IsSuffix.unique (hs : IsSuffix s) (hs' : IsSuffix s') (h : stem ++ s = stem' ++ s') :
    s = s' := by
  have hsame := hs.fromLastDot stem
  rw [h, hs'.fromLastDot stem'] at hsame
  exact (String.toList_inj.mp (Option.some.inj hsame)).symm

end Names

/-! ## Cuts at dots -/

/-- No other character has the octet of a dot. -/
theorem dot_mem_encode {cs : List Char} : Ascii.dot ∈ Utf8.encode cs ↔ '.' ∈ cs := by
  constructor
  · intro h
    obtain ⟨c, hc, hb⟩ := List.mem_flatMap.mp h
    have hdot : c.toNat = '.'.toNat := by
      have hnumber : Ascii.dot.toNat = '.'.toNat := by decide
      have hlow : '.'.toNat < 0x80 := by decide
      rcases Utf8.toNat_of_mem_encodeChar hb with hsame | hhigh <;> omega
    rwa [← Char.toNat_inj.mp hdot]
  · intro h
    exact List.mem_flatMap.mpr ⟨'.', h, by decide⟩

theorem lastDot?_of_no_dot {octets : Bytes} (h : Ascii.dot ∉ octets) : lastDot? octets = none := by
  induction octets with
  | nil => rfl
  | cons b r ih =>
    rw [List.mem_cons, not_or] at h
    rw [lastDot?, ih h.2]
    exact if_neg (Ne.symm h.1)

theorem lastDot?_at_dot (front : Bytes) {ext : Bytes} (h : Ascii.dot ∉ ext) :
    lastDot? (front ++ Ascii.dot :: ext) = some front.length := by
  induction front with
  | nil => rw [List.nil_append, lastDot?, lastDot?_of_no_dot h, if_pos rfl]; rfl
  | cons b front ih => rw [List.cons_append, lastDot?, ih]; rfl

theorem encode_at_dot (front ext : List Char) :
    Utf8.encode (front ++ '.' :: ext) = Utf8.encode front ++ Ascii.dot :: Utf8.encode ext := by
  rw [Utf8.encode_append]
  rfl

/-- Nothing is encoded as no octets but nothing. -/
theorem encode_eq_nil {cs : List Char} : Utf8.encode cs = [] ↔ cs = [] :=
  Utf8.carried_lineEnds.flatMap_eq_nil

/-- The scan of the octets cuts out the suffix that a name has, and cuts between characters. -/
theorem ofOctets?_ofString (name : String) :
    ofOctets? (Utf8.ofString name) = some ((ofName name).map Utf8.ofString) := by
  rcases dot_cases name.toList with hno | ⟨front, ext, hname, hext⟩
  · rw [ofOctets?, Utf8.ofString, lastDot?_of_no_dot (mt dot_mem_encode.mp hno),
      ofName_of_no_dot hno]
    rfl
  · have hplace : lastDot? (Utf8.encode name.toList) = some (Utf8.encode front).length := by
      rw [hname, encode_at_dot, lastDot?_at_dot _ (mt dot_mem_encode.mp hext)]
    -- The dot stands at an end of the octets if no character stands on that side of it.
    have hends : (Utf8.encode front).length = 0 ∨
        (Utf8.encode front).length + 1 = (Utf8.encode name.toList).length ↔
          front = [] ∨ ext = [] := by
      rw [hname, encode_at_dot, List.length_append, List.length_cons, Nat.add_left_cancel_iff,
        Nat.right_eq_add, List.length_eq_zero_iff, List.length_eq_zero_iff, encode_eq_nil,
        encode_eq_nil]
    have hcut := Lines.slice?_encode front ('.' :: ext) []
    rw [List.append_nil, ← hname] at hcut
    rw [ofOctets?, Utf8.ofString, hplace, ofName_at_dot hname hext]
    dsimp only
    by_cases hedge : front = [] ∨ ext = []
    · rw [if_pos (hends.mpr hedge), if_pos hedge]
      rfl
    · rw [if_neg (mt hends.mp hedge), if_neg hedge, hcut]
      simp [Utf8.ofString]

/-- Octets start with that of a dot only if the characters start with a dot. -/
theorem head?_encode {cs : List Char} :
    (Utf8.encode cs).head? = some Ascii.dot ↔ cs.head? = some '.' := by
  cases cs with
  | nil => simp [Utf8.encode]
  | cons c r =>
    obtain ⟨b, bs, hb, -⟩ := Lines.head_encodeChar c
    have hfirst : (Utf8.encode (c :: r)).head? = some b := by simp [Utf8.encode, hb]
    rw [hfirst, List.head?_cons, Option.some_inj, Option.some_inj]
    constructor
    · rintro rfl
      have hmem : Ascii.dot ∈ Utf8.encode [c] := by simp [Utf8.encode, hb]
      exact (List.mem_singleton.mp (dot_mem_encode.mp hmem)).symm
    · rintro rfl
      exact (List.cons.inj hb).1.symm

/-- What stands behind a dot in front is cut out if it is not empty. -/
theorem wellFormedOctets?_dot {ext : List Char} (hne : ext ≠ []) :
    wellFormedOctets? (Utf8.encode ('.' :: ext)) = some (!ext.contains '.') := by
  have hlong : 1 < (Utf8.encode ('.' :: ext)).length := by
    have hpos : 0 < (Utf8.encode ext).length := List.length_pos_iff.mpr (mt encode_eq_nil.mp hne)
    have hlength : (Utf8.encode ('.' :: ext)).length = (Utf8.encode ext).length + 1 := rfl
    omega
  have hone : (Utf8.encode ['.']).length = 1 := rfl
  have hcut := Lines.slice?_encode ['.'] ext []
  rw [List.append_nil, List.singleton_append, hone] at hcut
  have hdots : (Utf8.encode ext).contains Ascii.dot = ext.contains '.' := by
    rw [List.contains_eq_mem, List.contains_eq_mem]
    exact decide_eq_decide.mpr dot_mem_encode
  rw [wellFormedOctets?, if_pos ⟨hlong, head?_encode.mpr rfl⟩, hcut, Option.map_some, hdots]

/-- The test on octets has the answer of the test on characters, and cuts between
characters. -/
theorem wellFormedOctets?_ofString (s : String) :
    wellFormedOctets? (Utf8.ofString s) = some (wellFormed s) := by
  unfold wellFormed Utf8.ofString
  split
  · next c ext hs =>
    rw [hs]
    exact wellFormedOctets?_dot (List.cons_ne_nil c ext)
  · next hs =>
    rw [wellFormedOctets?, if_neg]
    rintro ⟨hlong, hhead⟩
    obtain ⟨r, hr⟩ := List.head?_eq_some_iff.mp (head?_encode.mp hhead)
    cases r with
    | nil =>
      rw [hr] at hlong
      exact absurd hlong (by decide)
    | cons c ext => exact hs c ext hr

end Suffix

/-! ## Rules and layouts -/

/-- The rule that is found for a suffix is the one that the table has for it. -/
theorem RuleTable.get?_eq_some_iff {t : RuleTable} {suffix : String} {rule : Rule} :
    t.get? suffix = some rule ↔ (suffix, rule) ∈ t.rules := by
  rw [get?, List.lookup_eq_some_iff]
  constructor
  · rintro ⟨before, after, hrules, -⟩
    simp [hrules]
  · intro h
    obtain ⟨before, after, hrules⟩ := List.append_of_mem h
    refine ⟨before, after, hrules, ?_⟩
    -- Suffixes increase along the table, so no rule in front of this one has the same.
    intro p hp
    have hordered := t.ordered
    rw [hrules, List.pairwise_append] at hordered
    have hlt : p.1 < suffix := hordered.2.2 p hp (suffix, rule) List.mem_cons_self
    exact bne_iff_ne.mpr (Ne.symm (String.ne_of_lt hlt))

namespace Layout

theorem checkSuffixes_eq_ok {suffixes : List String} :
    checkSuffixes suffixes = .ok () ↔ ∀ s ∈ suffixes, Suffix.wellFormed s = true := by
  induction suffixes with
  | nil => simp [checkSuffixes]
  | cons s r ih =>
    rw [checkSuffixes, List.forall_mem_cons, ← ih]
    by_cases hs : Suffix.wellFormed s = true <;> simp [hs]

/-- The check of the rules comes last and looks at their suffixes alone. -/
theorem check_eq_ok {layout : Layout} :
    layout.check = .ok () ↔ ({ layout with rules := .empty } : Layout).check = .ok () ∧
      ∀ s ∈ layout.rules.suffixes, Suffix.wellFormed s = true := by
  rw [← checkSuffixes_eq_ok]
  unfold check
  dsimp only
  -- The three tests in front stop both layouts alike, as does that of the directories.
  split_ifs
  · simp
  · simp
  · simp
  · cases checkSubdirs [] layout.subdirs with
    | error e => simp [bind, Except.bind]
    | ok u => simp [bind, Except.bind, RuleTable.suffixes, RuleTable.empty, checkSuffixes]

end Layout

namespace Suffix

/-- **What is accepted for a rule is what names have.** A suffix passes the test for rules
exactly if some name has it, and a name has it exactly if the name is that suffix with
something in front of it and the suffix is a dot with a nonempty text without dots behind it.
So a layout is accepted exactly if it would be without rules and each suffix of its rules is
one of some name. In a layout that is accepted the rule that is found for a name is any whose
suffix the name ends in with something in front of it, and names that end in two suffixes of
its rules differ, whatever stands in front. The scans of the octets have the same answers for
any text, and never cut inside a character. -/
theorem grammar_exact :
    (∀ s, wellFormed s = true ↔ ∃ name, ofName name = some s) ∧
    (∀ name s, ofName name = some s ↔ ∃ stem, stem ≠ "" ∧ IsSuffix s ∧ name = stem ++ s) ∧
    (∀ layout : Layout, layout.check = .ok () ↔
      ({ layout with rules := .empty } : Layout).check = .ok () ∧
        ∀ s ∈ layout.rules.suffixes, ∃ name, ofName name = some s) ∧
    (∀ layout : Layout, layout.check = .ok () →
      (∀ name rule, layout.rules.forName? name = some rule ↔
        ∃ stem s, stem ≠ "" ∧ (s, rule) ∈ layout.rules.rules ∧ name = stem ++ s) ∧
      ∀ s ∈ layout.rules.suffixes, ∀ s' ∈ layout.rules.suffixes, s ≠ s' →
        ∀ stem stem', stem ++ s ≠ stem' ++ s') ∧
    ∀ text, ofOctets? (Utf8.ofString text) = some ((ofName text).map Utf8.ofString) ∧
      wellFormedOctets? (Utf8.ofString text) = some (wellFormed text) := by
  refine ⟨fun s => wellFormed_iff_exists, fun name s => ofName_eq_some_iff, ?_, ?_,
    fun text => ⟨ofOctets?_ofString text, wellFormedOctets?_ofString text⟩⟩
  · intro layout
    rw [Layout.check_eq_ok]
    simp only [wellFormed_iff_exists]
  · intro layout hcheck
    have hsuffixes : ∀ s ∈ layout.rules.suffixes, IsSuffix s :=
      fun s hs => wellFormed_iff.mp ((Layout.check_eq_ok.mp hcheck).2 s hs)
    refine ⟨?_, fun s hs s' hs' hne stem stem' hsame =>
      hne ((hsuffixes s hs).unique (hsuffixes s' hs') hsame)⟩
    intro name rule
    rw [RuleTable.forName?, Option.bind_eq_some_iff]
    simp only [RuleTable.get?_eq_some_iff, ofName_eq_some_iff]
    constructor
    · rintro ⟨s, ⟨stem, hstem, -, rfl⟩, hrule⟩
      exact ⟨stem, s, hstem, hrule, rfl⟩
    · rintro ⟨stem, s, hstem, hrule, rfl⟩
      exact ⟨s, ⟨stem, hstem, hsuffixes s (List.mem_map_of_mem hrule), rfl⟩, hrule⟩

end Suffix

namespace Sample

/-- A layout with a rule for a suffix whose letter has two octets. -/
def accented : Layout :=
  { Layout.standard (Path.ofString "local") (Path.ofString "guest") with
    rules := RuleTable.standard.insert ".ü" RuleTable.project }

end Sample

/-- It is accepted, and the rule is found for a name with several dots and another such
letter in front of them. -/
theorem Suffix.grammar_exact_sample :
    Sample.accented.check = .ok () ∧
      Sample.accented.rules.forName? "ß..c.ü" = some RuleTable.project ∧
      Suffix.ofOctets? (Utf8.ofString "ß..c.ü") = some (some (Utf8.ofString ".ü")) := by
  obtain ⟨-, hname, -, hrules, hoctets⟩ := Suffix.grammar_exact
  have hcheck : Sample.accented.check = .ok () := by decide +kernel
  have hrule : (".ü", RuleTable.project) ∈ Sample.accented.rules.rules := by decide +kernel
  have hsuffix : Suffix.ofName "ß..c.ü" = some ".ü" :=
    (hname _ _).mpr ⟨"ß..c", by decide, ⟨"ü", by decide, by decide, by decide⟩, by decide⟩
  refine ⟨hcheck, ?_, ?_⟩
  · exact ((hrules _ hcheck).1 _ _).mpr ⟨"ß..c", ".ü", by decide, hrule, by decide⟩
  · rw [(hoctets _).1, hsuffix]
    rfl

end GuestSync
