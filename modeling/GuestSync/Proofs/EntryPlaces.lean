/-
# GuestSync.Proofs.EntryPlaces -- links that no rule is for

Where no link has a name with a rule, an entry that a run converts or deletes is in the
directory that its path says, although that path may lead through any links to get
there. Such a run changes entries of its destination directories and makes
directories; it takes no link and no directory away and makes no link, so every
directory stays where it is found until the end.
-/
import GuestSync.Proofs.LinkTrails

namespace GuestSync

open Disk

/-- Behind the components of a path there is a slash or nothing. -/
theorem Path.steps_eq (p : Path) :
    ∃ zs, p.steps = p.bareSteps ++ zs ∧ (zs = [] ∨ zs = [.slash]) := by
  refine ⟨_, rfl, ?_⟩
  split
  · exact .inr rfl
  · exact .inl rfl

namespace Disk

/-- A disk as a system keeps it: the start is a directory, every node lies in a
directory and has a name that an entry can have. No link has a name with a rule. -/
structure Unlinked (rules : RuleTable) (d : Disk) : Prop where
  start : d.node? d.start = some .directory
  wellFormed : d.WellFormed
  proper : ∀ l n, d.node? (l ++ [n]) ≠ none → Name.Proper n
  links : ∀ l n target, d.node? (l ++ [n]) = some (.link target) → rules.forEntry? n = none

/-- Whether the start is a directory and every node lies in one, has a name that an entry
can have, and is a directory or a file if there is a rule for its name. -/
def IsUnlinked (rules : RuleTable) (d : Disk) : Prop :=
  d.node? d.start = some .directory ∧
    ∀ e ∈ d.nodes, d.node? e.1.dropLast = some .directory ∧
      ∀ n ∈ e.1.getLast?, Name.Proper n ∧ ((rules.forEntry? n).isSome → e.2.isPlain = true)

instance (rules : RuleTable) (d : Disk) : Decidable (d.IsUnlinked rules) :=
  inferInstanceAs (Decidable (_ ∧ _))

/-- The nodes of a disk can be tested one by one. -/
theorem IsUnlinked.unlinked {rules : RuleTable} {d : Disk} (h : d.IsUnlinked rules) :
    d.Unlinked rules := by
  have hentry : ∀ l n x, d.node? (l ++ [n]) = some x → d.node? l = some .directory ∧
      Name.Proper n ∧ ((rules.forEntry? n).isSome → x.isPlain = true) := by
    intro l n x hx
    rw [node?, if_neg (by simp)] at hx
    obtain ⟨before, after, hnodes, -⟩ := List.lookup_eq_some_iff.mp hx
    simpa using h.2 (l ++ [n], x) (by simp [hnodes])
  refine ⟨h.1, ?_, ?_, ?_⟩
  · intro l n hne
    obtain ⟨x, hx⟩ := Option.ne_none_iff_exists'.mp hne
    exact (hentry l n x hx).1
  · intro l n hne
    obtain ⟨x, hx⟩ := Option.ne_none_iff_exists'.mp hne
    exact (hentry l n x hx).2.1
  · intro l n target hx
    by_contra hrule
    simpa [Node.isPlain] using (hentry l n _ hx).2.2 (Option.isSome_iff_ne_none.mpr hrule)

/-- The disk `e` has all directories and links of `d` where they were. -/
structure Steady (d e : Disk) : Prop where
  start : e.start = d.start
  directories : ∀ m, d.node? m = some .directory → e.node? m = some .directory
  links : ∀ m target, d.node? m = some (.link target) → e.node? m = some (.link target)

variable {d e f : Disk} {rules : RuleTable} {l m : Location} {n : Name} {p : Path}

theorem Steady.refl (d : Disk) : d.Steady d := ⟨rfl, fun _ h => h, fun _ _ h => h⟩

theorem Steady.trans (h : d.Steady e) (h' : e.Steady f) : d.Steady f :=
  ⟨h'.start.trans h.start, fun m hm => h'.directories m (h.directories m hm),
    fun m t hm => h'.links m t (h.links m t hm)⟩

/-- A path keeps leading to its directory. -/
theorem DirectoryAt.steady (h : d.DirectoryAt p l) (hs : d.Steady e) : e.DirectoryAt p l := by
  refine ⟨(locate_congr hs.start ?_).trans h.1, hs.directories l h.2⟩
  intro m hm
  rcases trail_cases h.1 hm with rfl | hdir | ⟨target, hlink⟩
  · exact seenAlike_of_eq ((hs.directories _ h.2).trans h.2.symm)
  · exact seenAlike_of_eq ((hs.directories m hdir).trans hdir.symm)
  · exact seenAlike_of_eq ((hs.links m target hlink).trans hlink.symm)

/-! ## Where an entry is -/

variable (xs : List Step) {zs : List Step} (last : LastName) (n) in
/-- A walk that comes to a directory goes on from there to the entry of a name. -/
private theorem stride_onward (hzs : zs = [] ∨ zs = [.slash]) :
    match d.stride .followed l (xs ++ zs) with
    | .arrived k => d.node? k = some .directory →
        d.stride last l (xs ++ [.name n]) = d.stride last k [.name n]
    | .blocked _ => True
    | .link base target rest => ∃ r, rest = r ++ zs ∧
        d.stride last l (xs ++ [.name n]) = .link base target (r ++ [.name n]) := by
  induction xs generalizing l with
  | nil => rcases hzs with rfl | rfl <;> exact fun _ => rfl
  | cons x r ih =>
    cases x with
    | name k =>
      have hnot : ¬ (last = .created ∧ r ++ [Step.name n] = [.slash]) := by
        rintro ⟨-, hr⟩
        simpa using congrArg List.getLast? hr
      rw [List.cons_append, List.cons_append, stride, stride, if_neg (by simp), if_neg hnot]
      cases hx : d.node? (l ++ [k]) with
      | none => simp
      | some x =>
        cases x with
        | directory => exact ih
        | link target => simp
        | file c t => by_cases hr : r ++ zs = [] <;> simp [hr, hx]
        | fifo => by_cases hr : r ++ zs = [] <;> simp [hr, hx]
    | _ => exact ih

private theorem walk_onward (last : LastName) (n : Name) {links : Nat} {xs ys zs : List Step}
    {k : Location} (hzs : zs = [] ∨ zs = [.slash]) (hys : ys = xs ++ zs)
    (hwalk : d.walk .followed links l ys = .ok k) (hk : d.node? k = some .directory) :
    ∃ left, d.walk last links l (xs ++ [.name n]) = d.walk last left k [.name n] := by
  have honward := stride_onward (d := d) (l := l) n xs last hzs
  rw [← hys] at honward
  fun_induction d.walk .followed links l ys generalizing xs with
  | case1 links l ys k' hs =>
    obtain rfl : k' = k := by simpa using hwalk
    rw [hs] at honward
    refine ⟨links, ?_⟩
    unfold walk
    rw [honward hk]
  | case2 => simp at hwalk
  | case3 => simp at hwalk
  | case4 l ys base target rest links hs ih =>
    rw [hs] at honward
    obtain ⟨r, rfl, hnext⟩ := honward
    have hrest := stride_onward (d := d) (l := base) n (target.steps ++ r) last hzs
    rw [List.append_assoc] at hrest
    obtain ⟨left, hleft⟩ := ih (List.append_assoc ..).symm hwalk hrest
    refine ⟨left, ?_⟩
    rw [← hleft]
    conv_lhs => unfold walk
    rw [hnext, List.append_assoc]

/-- An entry that is no link is found in the directory that its path says, whatever
links lead there. -/
theorem locate_entry (h : d.DirectoryAt p l) (hp : p.isEmpty = false) (hn : Name.Proper n)
    (hlink : ∀ target, d.node? (l ++ [n]) ≠ some (.link target)) (last : LastName) :
    d.locate last (p.child n).steps =
      if last = .followed ∧ d.node? (l ++ [n]) = none then .error .notFound
      else .ok (l ++ [n]) := by
  obtain ⟨zs, hsteps, hzs⟩ := p.steps_eq
  have hwalk := h.1
  rw [locate, if_neg (Path.steps_ne_nil hp), hsteps] at hwalk
  obtain ⟨left, hleft⟩ := walk_onward last n hzs rfl hwalk h.2
  rw [locate, (Path.steps_child hp hn).1, if_neg (by simp), hleft]
  unfold walk
  rw [stride, if_neg (by simp)]
  cases hx : d.node? (l ++ [n]) with
  | none => cases last <;> simp
  | some x =>
    cases x with
    | link target => exact absurd hx (hlink target)
    | directory => simp [stride]
    | _ => simp

/-! ## Entries that change -/

/-- The disk `e` is `d` but for the entries of a directory that have certain names, and
what has become of these is no link either. -/
structure EntriesChanged (rules : RuleTable) (l : Location) (N : Name → Prop) (d e : Disk) :
    Prop where
  steady : d.Steady e
  unlinked : e.Unlinked rules
  others : ∀ m, (∀ n, N n → m ≠ l ++ [n]) → e.node? m = d.node? m

section Entries

variable {N : Name → Prop}

theorem EntriesChanged.refl (h : d.Unlinked rules) : d.EntriesChanged rules l N d :=
  ⟨.refl d, h, fun _ _ => rfl⟩

theorem EntriesChanged.trans (h : d.EntriesChanged rules l N e)
    (h' : e.EntriesChanged rules l N f) : d.EntriesChanged rules l N f :=
  ⟨h.steady.trans h'.steady, h'.unlinked, fun m hm => (h'.others m hm).trans (h.others m hm)⟩

theorem Unlinked.no_link (h : d.Unlinked rules) (hrule : (rules.forEntry? n).isSome)
    (target : Path) : d.node? (l ++ [n]) ≠ some (.link target) := by
  intro hlink
  simp [h.links l n target hlink] at hrule

/-- One entry that neither was nor is a link, and was no directory. -/
theorem Unlinked.changed (h : d.Unlinked rules) (hl : d.node? l = some .directory)
    (hn : Name.Proper n) (hN : N n) (hstart : e.start = d.start)
    (hother : ∀ k, k ≠ l ++ [n] → e.node? k = d.node? k)
    (hdir : d.node? (l ++ [n]) ≠ some .directory)
    (hold : ∀ target, d.node? (l ++ [n]) ≠ some (.link target))
    (hnew : ∀ target, e.node? (l ++ [n]) ≠ some (.link target)) :
    d.EntriesChanged rules l N e := by
  have hdirectories : ∀ m, d.node? m = some .directory → e.node? m = some .directory := by
    intro m hm
    rw [hother m fun hmn => hdir (hmn ▸ hm), hm]
  refine ⟨⟨hstart, hdirectories, ?_⟩, ⟨?_, ?_, ?_, ?_⟩, fun m hm => hother m (hm n hN)⟩
  · intro m target hm
    rw [hother m fun hmn => hold target (hmn ▸ hm), hm]
  · rw [hstart]
    exact hdirectories _ h.start
  · intro m k hk
    by_cases hmk : m ++ [k] = l ++ [n]
    · obtain ⟨rfl, -⟩ := List.append_singleton_inj.mp hmk
      exact hdirectories _ hl
    · rw [hother _ hmk] at hk
      exact hdirectories _ (h.wellFormed m k hk)
  · intro m k hk
    by_cases hmk : m ++ [k] = l ++ [n]
    · obtain ⟨-, rfl⟩ := List.append_singleton_inj.mp hmk
      exact hn
    · rw [hother _ hmk] at hk
      exact h.proper m k hk
  · intro m k target hk
    by_cases hmk : m ++ [k] = l ++ [n]
    · rw [hmk] at hk
      exact absurd hk (hnew target)
    · rw [hother _ hmk] at hk
      exact h.links m k target hk

variable {T : Path}

/-- What a run does to an entry with a rule stays with that entry. -/
theorem Unlinked.write_entry (h : d.Unlinked rules) (hT : d.DirectoryAt T l) (hne : T.isEmpty = false)
    (hn : Name.Proper n) (hrule : (rules.forEntry? n).isSome) (hN : N n) {content : Bytes}
    (hwrite : d.write (T.child n) content = .ok e) : d.EntriesChanged rules l N e := by
  obtain ⟨m, t, hloc, hold, hnew, hstart, hother⟩ := filled_of_write hwrite
  rw [locate_entry hT hne hn (h.no_link hrule), if_neg (by simp)] at hloc
  obtain rfl := Except.ok.inj hloc
  refine h.changed hT.2 hn hN hstart hother ?_ (h.no_link hrule) (by simp [hnew])
  rcases hold with hx | ⟨c, t, hx⟩ <;> simp [hx]

theorem Unlinked.remove_entry (h : d.Unlinked rules) (hT : d.DirectoryAt T l) (hne : T.isEmpty = false)
    (hn : Name.Proper n) (hrule : (rules.forEntry? n).isSome) (hN : N n)
    (hremove : d.remove (T.child n) = .ok e) : d.EntriesChanged rules l N e := by
  obtain ⟨m, hloc, hdir, hnone, hstart, hother⟩ := cut_of_remove hremove
  obtain ⟨hsteps, hbare, -⟩ := Path.steps_child hne hn
  rw [hbare, ← hsteps, locate_entry hT hne hn (h.no_link hrule), if_neg (by simp)] at hloc
  obtain rfl := Except.ok.inj hloc
  exact h.changed hT.2 hn hN hstart hother hdir (h.no_link hrule) (by simp [hnone])

theorem Unlinked.setTag_entry (h : d.Unlinked rules) (hT : d.DirectoryAt T l) (hne : T.isEmpty = false)
    (hn : Name.Proper n) (hrule : (rules.forEntry? n).isSome) (hN : N n) {tag : Bytes}
    (htag : d.setTag (T.child n) tag = .ok e) : d.EntriesChanged rules l N e := by
  rcases retagged_of_setTag htag with rfl | ⟨m, c, t, t', hloc, hold, hnew, hstart, hother⟩
  · exact .refl h
  · rw [locate_entry hT hne hn (h.no_link hrule), if_neg (by simp)] at hloc
    obtain rfl := Except.ok.inj hloc
    exact h.changed hT.2 hn hN hstart hother (by simp [hold]) (h.no_link hrule) (by simp [hnew])

/-- What is read behind an entry with a rule is the file that stands there. -/
theorem Unlinked.read_entry (h : d.Unlinked rules) (hT : d.DirectoryAt T l) (hne : T.isEmpty = false)
    (hn : Name.Proper n) (hrule : (rules.forEntry? n).isSome) {content : Bytes} :
    d.read (T.child n) = .ok content ↔ ∃ t, d.node? (l ++ [n]) = some (.file content t) := by
  rw [read_eq_ok]
  rw [locate_entry hT hne hn (h.no_link hrule)]
  constructor
  · rintro ⟨m, t, hloc, hfile⟩
    split at hloc
    · simp at hloc
    · obtain rfl := Except.ok.inj hloc
      exact ⟨t, hfile⟩
  · rintro ⟨t, hfile⟩
    exact ⟨l ++ [n], t, by simp [hfile], hfile⟩

end Entries

/-! ## Directories that are made -/

/-- How a walk from a directory can find nothing: it has come by a name from a
directory. -/
def Fresh (d : Disk) (xs : List Step) : Stride → Prop
  | .arrived k => d.node? k = none →
      ∃ j n, k = j ++ [n] ∧ d.node? j = some .directory ∧ .name n ∈ xs
  | .blocked _ => True
  | .link base _ rest => d.node? base = some .directory ∧ ∀ n, .name n ∈ rest → .name n ∈ xs

private theorem Fresh.cons {r : List Step} {st : Stride} (h : d.Fresh r st) (x : Step) :
    d.Fresh (x :: r) st := by
  cases st with
  | arrived k =>
    intro hk
    obtain ⟨j, n, heq, hj, hn⟩ := h hk
    exact ⟨j, n, heq, hj, List.mem_cons_of_mem x hn⟩
  | blocked e => trivial
  | link base target rest => exact ⟨h.1, fun n hn => List.mem_cons_of_mem x (h.2 n hn)⟩

private theorem fresh_stride (hd : d.WellFormed) (hl : d.node? l = some .directory)
    (last : LastName) (xs : List Step) : d.Fresh xs (d.stride last l xs) := by
  induction xs generalizing l with
  | nil => exact fun hnone => by simp [hl] at hnone
  | cons x r ih =>
    cases x with
    | root => exact (ih d.node?_root).cons _
    | here => exact (ih hl).cons _
    | slash => exact (ih hl).cons _
    | up =>
      refine (ih ?_).cons _
      rcases List.eq_nil_or_concat l with rfl | ⟨j, n, rfl⟩
      · exact d.node?_root
      · rw [List.concat_eq_append, List.dropLast_concat]
        exact hd j n (by simp [← List.concat_eq_append, hl])
    | name n =>
      rw [stride]
      by_cases hslash : last = .created ∧ r = [.slash]
      · rw [if_pos hslash]
        trivial
      · rw [if_neg hslash]
        cases hx : d.node? (l ++ [n]) with
        | none =>
          by_cases hr : r = [] ∧ last ≠ .followed
          · rw [if_pos hr]
            exact fun _ => ⟨l, n, rfl, hl, List.mem_cons_self⟩
          · rw [if_neg hr]
            trivial
        | some x =>
          cases x with
          | directory => exact (ih hx).cons _
          | link target =>
            by_cases hr : r = [] ∧ last = .taken
            · simp [hr, hx, Fresh]
            · simp only [if_neg hr]
              exact ⟨hl, fun n hn => List.mem_cons_of_mem _ hn⟩
          | _ => by_cases hr : r = [] <;> simp [hr, hx, Fresh]

private theorem walk_fresh (hd : d.WellFormed) (hl : d.node? l = some .directory)
    {last : LastName} {links : Nat} {xs : List Step} (hxs : ∀ n, .name n ∈ xs → Name.Proper n)
    (hwalk : d.walk last links l xs = .ok m) (hm : d.node? m = none) :
    ∃ j n, m = j ++ [n] ∧ d.node? j = some .directory ∧ Name.Proper n := by
  fun_induction d.walk last links l xs with
  | case1 links l xs k hs =>
    obtain rfl : k = m := by simpa using hwalk
    have hfresh := fresh_stride hd hl last xs
    rw [hs] at hfresh
    obtain ⟨j, n, heq, hj, hn⟩ := hfresh hm
    exact ⟨j, n, heq, hj, hxs n hn⟩
  | case2 => simp at hwalk
  | case3 => simp at hwalk
  | case4 l xs base target rest links hs ih =>
    have hfresh := fresh_stride hd hl last xs
    rw [hs] at hfresh
    refine ih hfresh.1 ?_ hwalk
    intro n hn
    rcases List.mem_append.mp hn with hn | hn
    · exact Path.proper_of_mem_steps hn
    · exact hxs n (hfresh.2 n hn)

/-- Where a walk would make a directory, one that looks for it afterwards finds it. -/
private theorem stride_made {zs : List Step} (hzs : zs = [] ∨ zs = [.slash])
    (hold : d.node? m = none) (hnew : e.node? m = some .directory)
    (hother : ∀ k, k ≠ m → e.node? k = d.node? k) (l : Location) (xs : List Step) :
    match d.stride .taken l xs with
    | .arrived k => k = m → e.stride .followed l (xs ++ zs) = .arrived m
    | .blocked _ => True
    | .link base target rest =>
        e.stride .followed l (xs ++ zs) = .link base target (rest ++ zs) := by
  induction xs generalizing l with
  | nil =>
    rintro rfl
    rcases hzs with rfl | rfl <;> rfl
  | cons x r ih =>
    cases x with
    | name n =>
      rw [stride, List.cons_append, stride,
        if_neg (by simp : ¬ (LastName.taken = .created ∧ r = [.slash])),
        if_neg (by simp : ¬ (LastName.followed = .created ∧ r ++ zs = [.slash]))]
      by_cases hlast : l ++ [n] = m
      · rw [hlast, hold, hnew]
        by_cases hr : r = []
        · rcases hzs with rfl | rfl <;> simp [hr, stride]
        · simp [hr]
      · rw [hother _ hlast]
        cases hx : d.node? (l ++ [n]) with
        | none => by_cases hr : r = [] <;> simp [hr, hlast]
        | some x =>
          cases x with
          | directory => exact ih _
          | link target => by_cases hr : r = [] <;> simp [hr, hlast]
          | _ => by_cases hr : r = [] <;> simp [hr, hlast]
    | _ => exact ih _

private theorem walk_made {links : Nat} {xs zs : List Step} (hzs : zs = [] ∨ zs = [.slash])
    (hold : d.node? m = none) (hnew : e.node? m = some .directory)
    (hother : ∀ k, k ≠ m → e.node? k = d.node? k) (hwalk : d.walk .taken links l xs = .ok m) :
    e.walk .followed links l (xs ++ zs) = .ok m := by
  fun_induction d.walk .taken links l xs with
  | case1 links l xs k hs =>
    obtain rfl : k = m := by simpa using hwalk
    have hmade := stride_made hzs hold hnew hother l xs
    rw [hs] at hmade
    unfold walk
    rw [hmade rfl]
  | case2 => simp at hwalk
  | case3 => simp at hwalk
  | case4 l xs base target rest links hs ih =>
    have hmade := stride_made hzs hold hnew hother l xs
    rw [hs] at hmade
    have hrest := ih hwalk
    rw [List.append_assoc] at hrest
    unfold walk
    rw [hmade]
    exact hrest

/-- What making one directory has done. -/
theorem Unlinked.makeDirectory (h : d.Unlinked rules) (hmake : d.makeDirectory p = .ok e) :
    d.Steady e ∧ e.Unlinked rules ∧ e.isDirectory p = true := by
  obtain ⟨m, hloc, hm, rfl⟩ := make_of_ok hmake
  have hroot : m ≠ [] := ne_root (d := d) (by simp [hm])
  have hnew : (d.put m .directory).node? m = some .directory := node?_put_self hroot
  have hother : ∀ k, k ≠ m → (d.put m .directory).node? k = d.node? k :=
    fun k hk => node?_put_of_ne hroot hk
  unfold locate at hloc
  split at hloc
  · simp at hloc
  next hne =>
  have hproper : ∀ n, .name n ∈ p.bareSteps → Name.Proper n :=
    fun n hn => Path.proper_of_mem_steps (List.mem_append_left _ hn)
  obtain ⟨j, n, rfl, hj, hn⟩ := walk_fresh h.wellFormed h.start hproper hloc hm
  have hchanged : d.EntriesChanged rules j (· = n) (d.put (j ++ [n]) .directory) :=
    h.changed hj hn rfl rfl hother (by simp [hm]) (by simp [hm]) (by simp [hnew])
  refine ⟨hchanged.steady, hchanged.unlinked, isDirectory_iff.mpr ⟨j ++ [n], ?_, hnew⟩⟩
  obtain ⟨zs, hsteps, hzs⟩ := p.steps_eq
  rw [locate, if_neg (by simp [hsteps, hne]), hsteps]
  exact walk_made hzs hm hnew hother hloc

theorem Unlinked.makeFirst (h : d.Unlinked rules) (ps : List Path) :
    d.Steady (d.makeFirst ps).1 ∧ (d.makeFirst ps).1.Unlinked rules ∧
      ((d.makeFirst ps).2 = .ok () → ∀ p ∈ ps.head?, (d.makeFirst ps).1.isDirectory p = true) := by
  induction ps with
  | nil => exact ⟨.refl d, h, by simp⟩
  | cons p above ih =>
    unfold Disk.makeFirst
    split
    · next e hmake =>
      obtain ⟨hsteady, hunlinked, hdir⟩ := h.makeDirectory hmake
      exact ⟨hsteady, hunlinked, by simpa using hdir⟩
    · obtain ⟨hsteady, hunlinked, -⟩ := ih
      split
      · next e err habove =>
        rw [habove] at hsteady hunlinked
        exact ⟨hsteady, hunlinked, by simp⟩
      · next e habove =>
        rw [habove] at hsteady hunlinked
        split
        · next e' hmake =>
          obtain ⟨hsteady', hunlinked', hdir⟩ := hunlinked.makeDirectory hmake
          exact ⟨hsteady.trans hsteady', hunlinked', by simpa using hdir⟩
        · refine ⟨hsteady, hunlinked, ?_⟩
          split
          · next hdir => simpa using hdir
          · simp
    · refine ⟨.refl d, h, ?_⟩
      split
      · next hdir => simpa using hdir
      · simp

/-- Making a path takes nothing away and makes no link, and if it gets through the path
leads to a directory. -/
theorem Unlinked.makeDirectories (h : d.Unlinked rules) (hp : p.isEmpty = false) :
    d.Steady (d.makeDirectories p).1 ∧ (d.makeDirectories p).1.Unlinked rules ∧
      ((d.makeDirectories p).2 = .ok () → ∃ l, (d.makeDirectories p).1.DirectoryAt p l) := by
  unfold Disk.makeDirectories
  rw [if_neg (by simp [hp])]
  obtain ⟨hsteady, hunlinked, hdir⟩ := h.makeFirst (p :: p.enclosing)
  exact ⟨hsteady, hunlinked, fun hok => isDirectory_iff.mp (hdir hok p (by simp))⟩

end Disk

end GuestSync
