/-
# GuestSync.Proofs.DryRunPredicts -- a dry run says what the real one will do

Where the real run gets through, a dry run from the same disk gets through, counts
the same and says the same. The two see different disks: the real one makes
directories, writes and deletes, and the dry one goes on reading the disk of the
start. What carries the proof is that no pass is read by a later one. The source is
never touched, and an entry of a destination directory whose turn has not come is as
it was, but for directories of other subdirectories that were made in places where
nothing was. Such a directory is neither converted nor stale, and where a file is to
go in its place the real run fails.
-/
import GuestSync.Proofs.RunPairs
import GuestSync.Proofs.StraightPaths
import GuestSync.Proofs.SyncEffect

namespace GuestSync

namespace Disk

/-! ## A pass on two disks -/

section Alike

variable {d e : Disk} {l : Location} {n : Name}

/-- The two directories of a pass as the two runs see them: on the disk `e`, on which the
destination has been made, and on the disk `d` of the start. The source entries are
alike, and so are those of the destination, but for directories that were made in
places where nothing was. -/
structure InStep (d e : Disk) (S T : Path) (k l : Location) : Prop where
  plain : d.Plain
  start : d.node? d.start = some .directory
  points : d.Points T l
  free : d.WayFree l
  real : e.Plain
  source : e.node? k = some .directory → e.Opens S k ∧ d.Opens S k
  destination : e.Opens T l
  apart : k ≠ l
  sources : ∀ n, e.node? (k ++ [n]) = d.node? (k ++ [n])
  entries : ∀ n, e.node? (l ++ [n]) = d.node? (l ++ [n]) ∨
    d.node? (l ++ [n]) = none ∧ e.node? (l ++ [n]) = some .directory

section InStep

variable {S T : Path} {k : Location}

theorem InStep.opens_source (h : d.InStep e S T k l) (hn : n ∈ e.children k) :
    e.Opens S k ∧ d.Opens S k :=
  h.source (h.real.directory_of_mem_children hn)

theorem InStep.read_source (h : d.InStep e S T k l) (hn : n ∈ e.children k) :
    d.read (S.child n) = e.read (S.child n) := by
  obtain ⟨he, hd⟩ := h.opens_source hn
  exact read_child_congr h.plain h.real hd he (h.real.proper_of_mem_children hn) (h.sources n)

/-- A destination file is seen alike if its place is, also where its directory is not
there yet. A directory that was made in the place since makes reading it fail. -/
theorem InStep.seenAlike (h : d.InStep e S T k l) (hn : Name.Proper n) :
    Run.SeenAlike d e (T.child n) := by
  have hread := read_child h.real h.destination hn
  rcases h.entries n with hsame | ⟨-, hmade⟩
  · left
    by_cases hl : d.node? l = some .directory
    · exact read_child_congr h.plain h.real (h.points.opens h.plain hl) h.destination hn hsame
    · have hnone : d.node? (l ++ [n]) = none := by
        by_contra hne
        exact hl (h.plain.wellFormed l n hne)
      have hway : d.WayFree (l ++ [n]) := by
        intro m hm
        rcases List.prefix_concat_iff.mp hm with rfl | hm
        · exact .inl hnone
        · exact h.free m hm
      rw [(h.points.child hn).read_missing h.plain h.start hway hnone, hread, hsame, hnone]
  · rw [hmade] at hread
    exact .inr ⟨.isDirectory, by simp, hread⟩

/-- A directory that was made is as little stale as nothing is. -/
theorem InStep.stale_iff (h : d.InStep e S T k l) {rules : RuleTable} {source : Option Node} :
    rules.Stale n source (e.node? (l ++ [n])) ↔ rules.Stale n source (d.node? (l ++ [n])) := by
  rcases h.entries n with hsame | ⟨hnone, hmade⟩
  · rw [hsame]
  · rw [hnone, hmade]
    simp [RuleTable.Stale, contentOf]

end InStep

end Alike

end Disk

namespace Run

open Disk

/-! ## The two loops of a pass, side by side -/

section Loops

variable {mode dry : Mode} {rules : RuleTable} {q S T : Path} {k l : Location} {s t : Session}

/-- What a source entry has to read is the same in both runs, whatever has been done to
the entries before it. -/
theorem reads_alike {g : Name → Option Node → Option Node} {s₁ : Session} {done : List Name}
    {n : Name} (h : t.disk.InStep s.disk S T k l) (hre : Reworked l done g s s₁)
    (hn : n ∈ s.disk.children k) (hfresh : n ∉ done) :
    t.disk.read (S.child n) = s₁.disk.read (S.child n) ∧
      SeenAlike t.disk s₁.disk (T.child n) := by
  have hproper := h.real.proper_of_mem_children hn
  have hS := (h.opens_source hn).1
  have hT := h.destination
  have hreadS : s.disk.read (S.child n) = s₁.disk.read (S.child n) :=
    read_child_congr h.real hre.plain hS (hre.opens hS) hproper (hre.elsewhere h.apart n)
  have hreadT : s.disk.read (T.child n) = s₁.disk.read (T.child n) :=
    read_child_congr h.real hre.plain hT (hre.opens hT) hproper (hre.fresh hfresh)
  refine ⟨(h.read_source hn).trans hreadS, ?_⟩
  unfold SeenAlike
  rw [← hreadT]
  exact h.seenAlike hproper

section Actions

variable (hmode : mode.dryRun = false) (hdry : dry.dryRun = true)
variable (hdirection : dry.direction = mode.direction)

include hmode hdry hdirection

variable (rules q) in
/-- The first loop, entry by entry. -/
theorem mirrored_sources (h : t.disk.InStep s.disk S T k l) (ht : t.Foretells s) :
    Mirrored
      ((Plan.ofSource rules T ((s.disk.children k).map (s.disk.entry S))).actions.forM
        (execute mode q))
      ((Plan.ofSource rules T ((s.disk.children k).map (s.disk.entry S))).actions.forM
        (execute dry q)) s t
      fun _ _ s' t' => t'.Foretells s' ∧ t'.disk = t.disk ∧
        Reworked l (s.disk.children k)
          (fun n => mode.placed rules n (s.disk.node? (k ++ [n]))) s s' := by
  rw [Plan.ofSource_actions, List.map_map, forM_map, forM_map]
  refine Mirrored.forM (s.disk.children k)
    (I := fun done s' t' => t'.Foretells s' ∧ t'.disk = t.disk ∧
      Reworked l done (fun n => mode.placed rules n (s.disk.node? (k ++ [n]))) s s')
    ⟨ht, rfl, Reworked.refl h.real⟩ ?_
  rintro done n rest s' t' hsplit ⟨ht', hdisk, hre⟩
  have hn : n ∈ s.disk.children k := by simp [hsplit]
  have hproper := h.real.proper_of_mem_children hn
  have hfresh : n ∉ done := by
    intro hmem
    exact List.disjoint_of_nodup_append (hsplit ▸ nodup_children s.disk k) hmem (by simp)
  have hmirror : Mirrored (execute mode q ((s.disk.entry S n).sourceAction rules T))
      (execute dry q ((s.disk.entry S n).sourceAction rules T)) s' t'
      fun _ _ s'' t'' => t''.Foretells s'' := by
    apply mirrored_execute hmode hdry hdirection ht'
    intro source destination rule hconvert
    obtain ⟨rfl, rfl⟩ := sourceAction_eq_convert hconvert
    rw [hdisk]
    exact reads_alike h hre hn hfresh
  have hS := (h.opens_source hn).1
  have hT := h.destination
  have hends := ends_sourceEntry rules q hmode h.real hS hre.plain (hre.opens hS) (hre.opens hT)
    hproper (hre.elsewhere h.apart n).symm
  rw [hre.elsewhere h.apart, hre.fresh hfresh] at hends
  apply ((hmirror.and_ends hends).and_idle (idle_execute hdry q _)).mono
  rintro _ _ s'' t'' ⟨⟨ht'', hready, -, -, hchanged⟩, hidle⟩
  exact ⟨ht'', hidle.trans hdisk,
    hre.snoc hfresh hproper hT.directory (puttable_placed hready) hchanged⟩

/-- Deletions by themselves assume nothing of the disks. -/
theorem mirrored_deletions (ht : t.Foretells s) (paths : List Path) :
    Mirrored ((paths.map Action.delete).forM (execute mode q))
      ((paths.map Action.delete).forM (execute dry q)) s t fun _ _ s' t' => t'.Foretells s' := by
  refine Mirrored.forM (paths.map Action.delete) (I := fun _ s t => t.Foretells s) ht ?_
  intro done a rest s t hsplit ht
  apply mirrored_execute hmode hdry hdirection ht
  rintro source destination rule rfl
  have hmem : Action.convert source destination rule ∈ paths.map Action.delete := by simp [hsplit]
  simp at hmem

end Actions

variable (mode q) in
/-- The second loop where the directory may be missing. Then nothing in it is stale. -/
theorem run_cleanUp_unless_missing (hd : s.disk.Plain) (hT : s.disk.Points T l) {plan : Plan}
    (source : Name → Option Node) (hexpected : rules.Expects plan.expected source) :
    (do if !(← get).disk.isDirectory T then return () else cleanUp rules mode q T plan :
        Run Unit).run s =
      ((((s.disk.staleNames rules l source).map T.child).map Action.delete).forM
        (execute mode q)).run s := by
  rw [run_bind, run_get]
  dsimp only
  by_cases hl : s.disk.node? l = some .directory
  · rw [(hT.isDirectory_iff hd).mpr hl, if_neg (by simp)]
    exact run_cleanUp mode q hd (hT.opens hd hl) source hexpected
  · have hno : s.disk.isDirectory T = false := by
      rw [← Bool.not_eq_true, hT.isDirectory_iff hd]
      exact hl
    rw [hno, Bool.not_false, if_pos rfl, staleNames, hd.children_of_not_directory hl]
    rfl

variable (rules q) in
/-- **Both loops and their dry run.** -/
theorem mirrored_loops (hmode : mode.dryRun = false) (hdry : dry.dryRun = true)
    (hdirection : dry.direction = mode.direction) (h : t.disk.InStep s.disk S T k l)
    (ht : t.Foretells s) {plan : Plan}
    (hplan : plan = Plan.ofSource rules T ((s.disk.children k).map (s.disk.entry S))) :
    Mirrored
      (do
        plan.actions.forM (execute mode q)
        cleanUp rules mode q T plan)
      (do
        plan.actions.forM (execute dry q)
        if !(← get).disk.isDirectory T then return () else cleanUp rules dry q T plan) s t
      fun _ _ s' t' => t'.Foretells s' := by
  have hexpected := expects_ofSource rules T h.real fun hk => (h.source hk).1
  rw [← hplan] at hexpected
  have hsources := mirrored_sources rules q hmode hdry hdirection h ht
  rw [← hplan] at hsources
  apply hsources.bind
  rintro _ _ s₂ t₂ ⟨ht₂, hdisk, hre⟩
  -- The two lists of stale names are one: no conversion changes what is stale.
  have hstale : t₂.disk.staleNames rules l (fun n => s.disk.node? (k ++ [n])) =
      s₂.disk.staleNames rules l (fun n => s.disk.node? (k ++ [n])) := by
    apply staleNames_congr
    intro n
    rw [hre.placed, stale_placed, hdisk, h.stale_iff]
  have hreal := run_cleanUp mode q hre.plain (hre.opens h.destination) _ hexpected
  have hshown := run_cleanUp_unless_missing dry q (hdisk ▸ h.plain) (hdisk ▸ h.points) _ hexpected
  rw [hstale] at hshown
  exact (mirrored_deletions hmode hdry hdirection ht₂ _).congr hreal hshown

end Loops

end Run

/-! ## One pass -/

namespace Disk

/-- A disk on which a dry run can tell what the real run will do: the roots are free of
`..` and apart from each other, and no file is on the way to a destination directory.
Nothing of either root need be there. -/
structure Prospect (d : Disk) (S T : Path) (A B : Location) (qs : List Path) : Prop where
  plain : d.Plain
  start : d.node? d.start = some .directory
  source : d.Points S A
  destination : d.Points T B
  outside : ¬ A <+: B
  inside : ¬ B <+: A
  inner : ∀ q ∈ qs, q.Inner
  free : ∀ q ∈ qs, d.WayFree (B ++ q.names)

/-- What the real run may have made of the disk `d` when the passes over `done` are
through, as far as the dry run can tell. -/
structure Foreseen (d e : Disk) (A B : Location) (done : List Path) : Prop
    extends d.Kept e where
  begun : e = d ∨ e.node? B = some .directory
  source : ∀ x, e.node? (A ++ x) = d.node? (A ++ x)
  entries : ∀ x n, (∀ r ∈ done, r.names ≠ x) →
    e.node? (B ++ x ++ [n]) = d.node? (B ++ x ++ [n]) ∨
      d.node? (B ++ x ++ [n]) = none ∧ e.node? (B ++ x ++ [n]) = some .directory

section Foreseen

variable {mode : Mode} {rules : RuleTable} {d e f : Disk} {S T : Path} {A B : Location}
variable {q : Path} {qs done : List Path}

theorem Foreseen.refl (hd : d.Plain) : d.Foreseen d A B [] :=
  ⟨⟨rfl, hd, fun _ hm => hm⟩, .inl rfl, fun _ => rfl, fun _ _ _ => .inl rfl⟩

/-- Making a destination directory, also the first of all with its root. -/
theorem Foreseen.making (he : d.Foreseen e A B done) (h : d.Prospect S T A B qs) (hq : q ∈ qs)
    (hmake : e.makeDirectories (T.join q) = (f, .ok ())) :
    e.WayFree (B ++ q.names) ∧ e.Kept f ∧ e.Grown f (B ++ q.names) := by
  rcases he.begun with rfl | hB
  · have hpoints := h.destination.join (h.inner q hq)
    have hmaking := pathMaking h.plain h.start hpoints.nonempty
      (hpoints.fileFree_components (h.free q hq))
    rw [hmake] at hmaking
    cases hmaking with
    | made _ laid =>
      have hf := laid.plain h.plain h.start (Path.spellable_components (T.join q)).1
      exact ⟨h.free q hq, ⟨laid.start, hf, laid.keeps⟩, hpoints.grown laid⟩
  · have hopens := (h.destination.of_start he.start).opens he.plain hB
    have hmaking := Disk.making he.plain hopens (h.inner q hq)
    rw [hmake] at hmaking
    cases hmaking with
    | made free _ grown =>
      have hf := grown.plain he.plain hB fun n hn => Path.proper_of_mem_names hn
      exact ⟨free, ⟨grown.start, hf, grown.keeps⟩, grown⟩

/-- **A pass is seen by later ones only in the directories that it made.** -/
theorem Foreseen.passed (he : d.Foreseen e A B done) (h : d.Prospect S T A B qs)
    (hfree : e.WayFree (B ++ q.names))
    (hp : mode.Passed rules (A ++ q.names) (B ++ q.names) e f) :
    d.Foreseen f A B (done ++ [q]) := by
  refine ⟨he.toKept.trans hp.toKept, .inr (hp.way B (List.prefix_append B _)), ?_, ?_⟩
  · intro x
    rw [hp.others, he.source]
    · exact not_prefix_of_apart h.outside h.inside x q.names
    · intro n heq
      rw [List.append_assoc] at heq
      exact not_prefix_of_apart h.outside h.inside x (q.names ++ [n]) (heq ▸ List.prefix_rfl)
  · intro x n hx
    have hold := he.entries x n fun r hr => hx r (by simp [hr])
    by_cases hway : B ++ x ++ [n] <+: B ++ q.names
    · -- The entry is on the way, so it is a directory now and was one or nothing before.
      rw [hp.way _ hway]
      rcases hfree _ hway with hnone | hdir
      · rw [hnone] at hold
        exact .inr ⟨by simpa [eq_comm] using hold, rfl⟩
      · rw [hdir] at hold
        simpa [eq_comm] using hold
    · rw [hp.others _ hway]
      · exact hold
      · intro k heq
        exact hx q (by simp) (entry_inj heq).1.symm

/-- Making a destination directory is not seen in the source. -/
theorem Foreseen.source_made (he : d.Foreseen e A B done) (h : d.Prospect S T A B qs)
    (hgrown : e.Grown f (B ++ q.names)) (x : List Name) :
    f.node? (A ++ x) = d.node? (A ++ x) := by
  rw [hgrown.other (not_prefix_of_apart h.outside h.inside x q.names), he.source]

/-- A pass whose turn has come sees what was there at the start. -/
theorem Foreseen.inStep (he : d.Foreseen e A B done) (h : d.Prospect S T A B qs) (hq : q ∈ qs)
    (hfresh : ∀ r ∈ done, r.names ≠ q.names) (hf : d.Kept f)
    (hgrown : e.Grown f (B ++ q.names)) (hSf : f.Opens S A) (hS : d.Opens S A) :
    d.InStep f (S.join q) (T.join q) (A ++ q.names) (B ++ q.names) := by
  have hinner := h.inner q hq
  have hpoints := h.destination.join hinner
  have hsource := he.source_made h hgrown
  refine ⟨h.plain, h.start, hpoints, h.free q hq, hf.plain, ?_, ?_, ?_, ?_, ?_⟩
  · intro hk
    have hk' : d.node? (A ++ q.names) = some .directory := by rwa [← hsource]
    exact ⟨hSf.join hf.plain hinner hk, hS.join h.plain hinner hk'⟩
  · exact (hpoints.of_start hf.start).opens hf.plain (hgrown.way List.prefix_rfl)
  · intro heq
    exact not_prefix_of_apart h.outside h.inside q.names q.names (heq ▸ List.prefix_rfl)
  · intro n
    rw [List.append_assoc, hsource]
  · intro n
    rw [hgrown.entry]
    exact he.entries q.names n hfresh

end Foreseen

end Disk

namespace Run

open Disk

section Pass

variable {layout : Layout} {mode dry : Mode} {A B : Location} {q : Path} {done : List Path}
variable {d : Disk} {s t : Session}

/-- The source of a pass is listed alike, and its root is there on both disks. -/
theorem mirrored_list {S T : Path} {qs : List Path} (h : t.disk.Prospect S T A B qs) (hq : q ∈ qs)
    (hs : t.disk.Kept s.disk) (hsource : ∀ x, s.disk.node? (A ++ x) = t.disk.node? (A ++ x)) :
    Mirrored (list (S.join q)) (list (S.join q)) s t fun a b s' t' =>
      s = s' ∧ t = t' ∧ a = b ∧
        a = (s.disk.children (A ++ q.names)).map (s.disk.entry (S.join q)) ∧
        s.disk.Opens S A ∧ t.disk.Opens S A := by
  have hreal := run_list s (S.join q)
  have hshown := run_list t (S.join q)
  cases hlist : s.disk.list (S.join q) with
  | error e =>
    rw [hlist] at hreal
    exact Mirrored.of_run_error hreal
  | ok ns =>
    have hstart : s.disk.node? s.disk.start = some .directory := by
      rw [hs.start]
      exact hs.directories _ h.start
    have hopens : s.disk.Opens S A :=
      (h.source.of_start hs.start).opens_of_list hs.plain hstart (h.inner q hq) hlist
    have hA : t.disk.node? A = some .directory := by
      have hroot := hsource []
      rw [List.append_nil, hopens.directory] at hroot
      exact hroot.symm
    have hopens' : t.disk.Opens S A := h.source.opens h.plain hA
    obtain ⟨rfl, hlist', hentries⟩ :=
      list_congr h.plain hs.plain hopens' hopens (h.inner q hq) hsource hlist
    rw [hlist] at hreal
    rw [hlist'] at hshown
    exact Mirrored.of_run_ok hreal hshown ⟨rfl, rfl, hentries.symm, rfl, hopens, hopens'⟩

/-- **A pass and its dry run.** -/
theorem mirrored_pass (hmode : mode.dryRun = false) (hdry : dry.dryRun = true)
    (hdirection : dry.direction = mode.direction)
    (h : t.disk.Prospect (layout.sourceRoot mode.direction)
      (layout.destinationRoot mode.direction) A B layout.subdirs)
    (hq : q ∈ layout.subdirs) (hfresh : ∀ r ∈ done, r.names ≠ q.names)
    (he : t.disk.Foreseen s.disk A B done) (ht : t.Foretells s) :
    Mirrored (pass layout mode q) (pass layout dry q) s t fun _ _ s' t' =>
      t'.Foretells s' ∧ t.disk.Foreseen s'.disk A B (done ++ [q]) := by
  unfold pass
  simp only [hmode, hdry, hdirection, Bool.false_and, Bool.true_and, Bool.false_eq_true, if_false,
    if_true, get_seq]
  generalize layout.sourceRoot mode.direction = S at h ⊢
  generalize layout.destinationRoot mode.direction = T at h ⊢
  apply Mirrored.ahead
  intro _ s₁ hmake
  have ht₁ : t.Foretells s₁ := by
    have hquiet := Silent.makeDirectories (T.join q) s
    rw [hmake] at hquiet
    exact ht.of_quiet hquiet
  obtain ⟨hfree, hkept, hgrown⟩ := he.making h hq (makeDirectories_of_run_ok hmake)
  have hkept₁ : t.disk.Kept s₁.disk := he.toKept.trans hkept
  have hsource := he.source_made h hgrown
  apply (mirrored_list h hq hkept₁ hsource).bind
  rintro entries _ _ _ ⟨rfl, rfl, rfl, rfl, hS₁, hS⟩
  have hstep := he.inStep h hq hfresh hkept₁ hgrown hS₁ hS
  have hloops := ends_loops layout.rules q hmode hkept₁.plain (fun hk => (hstep.source hk).1)
    hstep.destination
  have hmirror := mirrored_loops layout.rules q hmode hdry hdirection hstep ht₁ rfl
  apply (hmirror.and_ends hloops).mono
  rintro _ _ s' t' ⟨hs', -, -, -, hpassed⟩
  refine ⟨hs', he.passed h hfree (hpassed.of_grown hkept hgrown ?_)⟩
  intro n
  rw [List.append_assoc, hsource, he.source]

end Pass

end Run

/-! ## The whole run -/

section Run

variable {layout : Layout} {mode : Mode} {d : Disk} {A B : Location} {s : Session}

end Run

namespace Sample

/-- A source with a file in either directory and one that no rule is for. On the guest
there is a file that has no source any more, and the subdirectory is missing. -/
def halfway : Disk where
  start := []
  nodes := [([name "local"], .directory), ([name "guest"], .directory),
    ([name "local", name "a.c"], .file (Utf8.ofString "x\n") none),
    ([name "local", name "notes"], .file (Utf8.ofString "z") none),
    ([name "local", name "macos"], .directory),
    ([name "local", name "macos", name "b.c"], .file (Utf8.ofString "y\n") none),
    ([name "guest", name "old.c"], .file (Utf8.ofString "y") none)]

/-- The roots of the sample with one subdirectory besides. -/
def twofold : Layout := { layout with subdirs := [Path.ofString ".", Path.ofString "macos"] }

/-- The session after a push of that. -/
def arrived : Session := ((Run.sync twofold push).run (Session.start halfway)).2

theorem run_arrived : (Run.sync twofold push).run (Session.start halfway) = (.ok (), arrived) := by
  have hok : ((Run.sync twofold push).run (Session.start halfway)).1 = .ok () := by decide +kernel
  rw [arrived, ← hok, Prod.mk.eta]

end Sample

end GuestSync
