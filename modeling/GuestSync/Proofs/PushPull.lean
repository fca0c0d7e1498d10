/-
# GuestSync.Proofs.PushPull -- a push, the pull after it, and all runs after both

A push that got through leaves the guest with a file for each recognized file of
the local side and with no other recognized file. The pull after it therefore
deletes nothing, and gives every local text back with its line ends made line
feeds. From then on the contents of the two sides convert into each other, so no
run, in whatever order pushes and pulls follow, finds anything to do.
-/
import GuestSync.Proofs.Balance

namespace GuestSync

open Disk

/-- Runs one after the other, each on the disk that the one before it left, and what
came of each. -/
def Layout.runs (layout : Layout) : Disk → List Mode → List (Except Failure Unit × Session)
  | _, [] => []
  | d, mode :: modes =>
    (Run.sync layout mode).run (Session.start d) ::
      layout.runs ((Run.sync layout mode).run (Session.start d)).2.disk modes

/-! ## Runs in balance -/

/-- The contents of the two sides convert into each other. -/
structure Layout.Balanced (layout : Layout) (A B : Location) (d : Disk) : Prop where
  sides : d.Sides layout.localRoot layout.guestRoot A B
  paired : d.Paired (Twins .push) layout.rules A B layout.subdirs

namespace Layout.Balanced

variable {layout : Layout} {A B : Location} {d : Disk}

/-- A run in balance, in either direction. -/
theorem run (h : layout.Balanced A B d) (hinner : ∀ q ∈ layout.subdirs, q.Inner) {mode : Mode}
    (hwilling : mode.tagger.Willing) :
    ∃ s, (Run.sync layout mode).run (Session.start d) = (.ok (), s) ∧
      s.tally.converted = 0 ∧ s.tally.deleted = 0 ∧ d.Alike s.disk ∧
      layout.Balanced A B s.disk := by
  obtain ⟨direction, dryRun, tagger⟩ := mode
  cases direction with
  | push =>
    obtain ⟨s, hrun, hconverted, hdeleted, halike, hkept, hpaired⟩ :=
      h.paired.still ⟨.push, dryRun, tagger⟩ hwilling h.sides hinner
    exact ⟨s, hrun, hconverted, hdeleted, halike, h.sides.kept hkept, hpaired⟩
  | pull =>
    have hback : d.Paired (Twins .pull) layout.rules B A layout.subdirs :=
      h.paired.symm.mono fun _ _ _ ht => ht.symm
    obtain ⟨s, hrun, hconverted, hdeleted, halike, hkept, hpaired⟩ :=
      hback.still ⟨.pull, dryRun, tagger⟩ hwilling h.sides.symm hinner
    exact ⟨s, hrun, hconverted, hdeleted, halike, h.sides.kept hkept,
      hpaired.symm.mono fun _ _ _ ht => ht.symm⟩

/-- **Runs in balance**, as many as there are and in any order. -/
theorem runs (h : layout.Balanced A B d) (hinner : ∀ q ∈ layout.subdirs, q.Inner)
    {modes : List Mode} (hwilling : ∀ mode ∈ modes, mode.tagger.Willing) :
    ∀ outcome ∈ layout.runs d modes, outcome.1 = .ok () ∧ outcome.2.tally.converted = 0 ∧
      outcome.2.tally.deleted = 0 ∧ d.Alike outcome.2.disk := by
  induction modes generalizing d with
  | nil => simp [Layout.runs]
  | cons mode modes ih =>
    obtain ⟨s, hrun, hconverted, hdeleted, halike, hbalanced⟩ :=
      h.run hinner (hwilling mode (by simp))
    intro outcome houtcome
    rw [Layout.runs, hrun] at houtcome
    rcases List.mem_cons.mp houtcome with rfl | houtcome
    · exact ⟨rfl, hconverted, hdeleted, halike⟩
    · obtain ⟨hok, hconverted', hdeleted', halike'⟩ :=
        ih hbalanced (fun mode hmode => hwilling mode (by simp [hmode])) outcome houtcome
      exact ⟨hok, hconverted', hdeleted', halike.trans halike'⟩

end Layout.Balanced

/-! ## The pull after a push -/

/-- The content of the guest's file can be pulled, and what comes of it is pushed as
before. -/
def Restorable (kind : FileKind) (guestContent _localContent : Bytes) : Prop :=
  ∃ back, Twins .pull kind guestContent back

theorem Restorable.lasting : Lasting .pull Restorable := by
  rintro _ _ _ ⟨back, h⟩
  exact ⟨back, h.there, back, h⟩

section PullBack

variable {push pull : Mode} {rules : RuleTable} {S T : Path} {A B : Location} {qs : List Path}
variable {d e f : Disk} {t u : Tally} {q : Path} {n : Name} {rule : Rule}

/-- A file under a recognized name has arrived on the guest. -/
theorem Mode.Passes.arrived (h : push.Passes rules A B d t qs e u) (hpush : push.direction = .push)
    (hd : d.Sides S T A B) (hdirs : ∀ q ∈ qs, d.node? (A ++ q.names) = some .directory)
    (hq : q ∈ qs) (hrule : rules.forEntry? n = some rule) {content : Bytes}
    (hsource : contentOf (d.node? (A ++ q.names ++ [n])) = some content) :
    ∃ output, convert rule.kind .push content = .ok output ∧
      contentOf (e.node? (B ++ q.names ++ [n])) = some output := by
  have hway : ∀ r ∈ qs, ¬ B ++ q.names ++ [n] <+: B ++ r.names := by
    -- The local side has a directory at every such place, and so no file.
    intro r hr hp
    rw [List.append_assoc, List.prefix_append_right_inj] at hp
    have hdir := hd.plain.directory_of_prefix_directory
      ((List.prefix_append_right_inj A).mpr hp) (hdirs r hr)
    rw [← List.append_assoc] at hdir
    rw [hdir] at hsource
    simp [contentOf] at hsource
  obtain ⟨output, hconvert⟩ := h.ready hd hq n hrule hsource
  refine ⟨output, hpush ▸ hconvert, ?_⟩
  rw [(h.synced hd).entries q hq n hway, Mode.settled_of_output hrule hsource hconvert]
  rfl

/-- No other file under a recognized name is left on the guest. -/
theorem Mode.Passes.cleared (h : push.Passes rules A B d t qs e u) (hd : d.Sides S T A B)
    (hq : q ∈ qs) (hrule : rules.forEntry? n = some rule)
    (hsource : contentOf (d.node? (A ++ q.names ++ [n])) = none) :
    contentOf (e.node? (B ++ q.names ++ [n])) = none := by
  by_cases hway : ∃ r ∈ qs, B ++ q.names ++ [n] <+: B ++ r.names
  · obtain ⟨r, hr, hp⟩ := hway
    rw [(h.synced hd).ways r hr _ hp]
    rfl
  · push Not at hway
    rw [(h.synced hd).entries q hq n hway, Mode.settled_of_no_content hrule hsource,
      contentOf_removed]

/-- **After a push** the guest's files can be pulled, and each has its local file. -/
theorem Mode.Passes.restorable (h : push.Passes rules A B d t qs e u)
    (hpush : push.direction = .push) (hd : d.Sides S T A B)
    (hdirs : ∀ q ∈ qs, d.node? (A ++ q.names) = some .directory) :
    e.Paired Restorable rules B A qs := by
  refine ⟨?_, ?_, ?_⟩
  · intro q hq
    exact (h.synced hd).ways q hq _ List.prefix_rfl
  · intro q hq
    rw [h.source hd, hdirs q hq]
  · intro q hq n rule hrule
    have hlocal : e.node? (A ++ q.names ++ [n]) = d.node? (A ++ q.names ++ [n]) := by
      rw [List.append_assoc, h.source hd]
    rw [hlocal]
    cases hsource : contentOf (d.node? (A ++ q.names ++ [n])) with
    | some content =>
      obtain ⟨output, hconvert, hguest⟩ := h.arrived hpush hd hdirs hq hrule hsource
      exact .inl ⟨output, content, hguest, rfl, Twins.of_push hconvert⟩
    | none => exact .inr ⟨h.cleared hd hq hrule hsource, rfl⟩

/-- **A pull** gives each local file that the guest has the content that the guest's
file stands for, and leaves its tag. -/
theorem Mode.Passes.pulled (h : pull.Passes rules B A e t qs f u) (hpull : pull.direction = .pull)
    (he : e.Sides S T B A) (hpaired : e.Paired Restorable rules B A qs) (hq : q ∈ qs)
    (hrule : rules.forEntry? n = some rule) {guestContent localContent : Bytes} {tag : Option Bytes}
    (hguest : contentOf (e.node? (B ++ q.names ++ [n])) = some guestContent)
    (hlocal : e.node? (A ++ q.names ++ [n]) = some (.file localContent tag)) :
    ∃ back, Twins .pull rule.kind guestContent back ∧
      f.node? (A ++ q.names ++ [n]) = some (.file back tag) := by
  have hway : ∀ r ∈ qs, ¬ A ++ q.names ++ [n] <+: A ++ r.names := by
    intro r hr hp
    have hdir := he.plain.directory_of_prefix_directory hp (hpaired.destinations r hr)
    rw [hlocal] at hdir
    simp at hdir
  obtain ⟨a, -, back, htwins⟩ := (hpaired.files q hq n).of_content hrule hguest
  refine ⟨back, htwins, ?_⟩
  rw [(h.synced he).entries q hq n hway,
    Mode.settled_of_output hrule hguest (hpull ▸ htwins.there), hlocal]
  simp [Mode.tagFor, hpull, tagOf]

/-- A pull leaves everything else on the local side as it was. -/
theorem Mode.Passes.left (h : pull.Passes rules B A e t qs f u) (he : e.Sides S T B A)
    (hpaired : e.Paired Restorable rules B A qs) {m : Location}
    (hm : ∀ q ∈ qs, ∀ n, m = A ++ q.names ++ [n] → (rules.forEntry? n).isSome →
      contentOf (e.node? m) = none) : f.node? m = e.node? m := by
  by_cases hway : ∃ r ∈ qs, m <+: A ++ r.names
  · obtain ⟨r, hr, hp⟩ := hway
    rw [(h.synced he).ways r hr m hp,
      he.plain.directory_of_prefix_directory hp (hpaired.destinations r hr)]
  push Not at hway
  by_cases hentry : ∃ q ∈ qs, ∃ n, m = A ++ q.names ++ [n]
  · obtain ⟨q, hq, n, rfl⟩ := hentry
    rw [(h.synced he).entries q hq n hway]
    cases hrule : rules.forEntry? n with
    | none => exact Mode.settled_of_no_rule hrule
    | some rule =>
      have hnone := hm q hq n rfl (by simp [hrule])
      have hguest := ((hpaired.files q hq n).no_content_iff hrule).mpr hnone
      rw [Mode.settled_of_no_content hrule hguest, hnone]
      rfl
  · push Not at hentry
    exact (h.synced he).others m hway hentry

/-- **After the pull** the contents of the two sides convert into each other. -/
theorem Mode.Passes.balanced (h : pull.Passes rules B A e t qs f u) (hpull : pull.direction = .pull)
    (he : e.Sides S T B A) (hpaired : e.Paired Restorable rules B A qs) :
    f.Paired (Twins .push) rules A B qs := by
  obtain ⟨hend, -⟩ := h.paired (hpull ▸ Restorable.lasting) he (fun _ hp => hp) hpaired
  refine ⟨hend.destinations, hend.sources, ?_⟩
  intro q hq n rule hrule
  have hguest : f.node? (B ++ q.names ++ [n]) = e.node? (B ++ q.names ++ [n]) := by
    rw [List.append_assoc, h.source he]
  rcases hpaired.files q hq n rule hrule with ⟨b, a, hb, ha, -⟩ | ⟨hb, -⟩
  · obtain ⟨tag, hlocal⟩ := contentOf_eq_some.mp ha
    obtain ⟨back, htwins, hnew⟩ := h.pulled hpull he hpaired hq hrule hb hlocal
    exact .inl ⟨back, b, by rw [hnew]; rfl, hguest ▸ hb, htwins.symm⟩
  · rw [← hguest] at hb
    exact .inr ⟨((hend.files q hq n).no_content_iff hrule).mp hb, hb⟩

end PullBack

/-! ## There, back, and nothing more to do -/

section RoundTrip

variable {layout : Layout} {push pull : Mode} {A B : Location} {d : Disk} {s : Session}

/-- What the round trip makes of a content: a text gets a line feed for each line end
and after its last line, anything else stays as it is. -/
def Restores (kind : FileKind) (content restored : Bytes) : Prop :=
  match kind with
  | .text => ∃ text, Utf8.decode content = some text ∧
      restored = Utf8.encode (Lines.normalized text)
  | .binary => restored = content

theorem Restores.of_twins {kind : FileKind} {content output back : Bytes}
    (hpush : convert kind .push content = .ok output) (hback : Twins .pull kind output back) :
    Restores kind content back := by
  cases kind with
  | text =>
    obtain ⟨text, htext, hpull⟩ := convertText_pull_push hpush
    exact ⟨text, htext, Except.ok.inj (hback.there.symm.trans hpull)⟩
  | binary =>
    have hsame : content = output := Except.ok.inj hpush
    have hback : output = back := Except.ok.inj hback.there
    exact (hsame.trans hback).symm

/-- What comes back to the local side of a file that went to the guest. -/
theorem Mode.Passes.restored {rules : RuleTable} {S T : Path} {qs : List Path} {e f : Disk}
    {t u t' u' : Tally} {q : Path} {n : Name} {rule : Rule} (h : push.Passes rules A B d t qs e u)
    (h' : pull.Passes rules B A e t' qs f u') (hpush : push.direction = .push)
    (hpull : pull.direction = .pull) (hd : d.Sides S T A B)
    (hdirs : ∀ q ∈ qs, d.node? (A ++ q.names) = some .directory) (hq : q ∈ qs)
    (hrule : rules.forEntry? n = some rule) {content : Bytes} {tag : Option Bytes}
    (hfile : d.node? (A ++ q.names ++ [n]) = some (.file content tag)) :
    ∃ restored, f.node? (A ++ q.names ++ [n]) = some (.file restored tag) ∧
      Restores rule.kind content restored := by
  obtain ⟨output, hconvert, harrived⟩ := h.arrived hpush hd hdirs hq hrule
    (contentOf_eq_some.mpr ⟨tag, hfile⟩)
  have hlocal : e.node? (A ++ q.names ++ [n]) = some (.file content tag) := by
    rw [List.append_assoc, h.source hd, ← List.append_assoc, hfile]
  obtain ⟨back, htwins, hnew⟩ := h'.pulled hpull (hd.kept (h.kept hd.plain)).symm
    (h.restorable hpush hd hdirs) hq hrule harrived hlocal
  exact ⟨back, hnew, .of_twins hconvert htwins⟩

/-- **Push, then pull.** On a disk of directories and regular files, between two
roots apart from each other, let every local subdirectory be there and let a push
get through. Then the pull after it gets through too and deletes nothing. It leaves
the local side as it was but for the line ends of recognized texts. After that every
sequence of runs, in whatever directions, gets through, converts nothing, deletes
nothing, and leaves all directories and all contents of files as they are. -/
theorem push_then_pull (hd : d.Plain) (hcheck : layout.check = .ok ())
    (hlocal : d.DirectoryAt layout.localRoot A) (hguest : d.DirectoryAt layout.guestRoot B)
    (hAB : ¬ A <+: B) (hBA : ¬ B <+: A)
    (hdirs : ∀ q ∈ layout.subdirs, d.isDirectory (layout.localRoot.join q) = true)
    (hpush : push.direction = .push) (hdry : push.dryRun = false)
    (hpull : pull.direction = .pull) (hdry' : pull.dryRun = false)
    (hwilling : pull.tagger.Willing)
    (hrun : (Run.sync layout push).run (Session.start d) = (.ok (), s)) :
    ∃ s', (Run.sync layout pull).run (Session.start s.disk) = (.ok (), s') ∧
      s'.tally.deleted = 0 ∧
      (∀ q ∈ layout.subdirs, ∀ n rule content tag, layout.rules.forEntry? n = some rule →
        d.node? (A ++ q.names ++ [n]) = some (.file content tag) →
          ∃ restored, s'.disk.node? (A ++ q.names ++ [n]) = some (.file restored tag) ∧
            Restores rule.kind content restored) ∧
      (∀ x, (∀ q ∈ layout.subdirs, ∀ n, x = q.names ++ [n] → (layout.rules.forEntry? n).isSome →
          contentOf (d.node? (A ++ x)) = none) →
        s'.disk.node? (A ++ x) = d.node? (A ++ x)) ∧
      ∀ modes : List Mode, (∀ mode ∈ modes, mode.tagger.Willing) →
        ∀ outcome ∈ layout.runs s'.disk modes, outcome.1 = .ok () ∧
          outcome.2.tally.converted = 0 ∧ outcome.2.tally.deleted = 0 ∧
          ∀ m, (outcome.2.disk.node? m = some .directory ↔ s'.disk.node? m = some .directory) ∧
            contentOf (outcome.2.disk.node? m) = contentOf (s'.disk.node? m) := by
  have hinner := Path.inner_of_check hcheck
  have hsides : d.Sides layout.localRoot layout.guestRoot A B := hd.sides hlocal hguest hAB hBA
  have hdirs' : ∀ q ∈ layout.subdirs, d.node? (A ++ q.names) = some .directory := by
    intro q hq
    exact (hsides.source.isDirectory_join hd (hinner q hq)).mp (hdirs q hq)
  -- The push leaves what can be pulled, and the local side as it was.
  have hroots : d.Sides (layout.sourceRoot push.direction) (layout.destinationRoot push.direction)
      A B := hpush ▸ hsides
  have hpushed := Run.passes_of_sync hdry hcheck hroots hrun
  have hkept := hpushed.kept hd
  have hrestorable := hpushed.restorable hpush hsides hdirs'
  have hsame : ∀ x, s.disk.node? (A ++ x) = d.node? (A ++ x) := hpushed.source hsides
  -- The pull goes from the guest's side to the local one, and both are paired.
  have hback : s.disk.Sides layout.guestRoot layout.localRoot B A := (hsides.kept hkept).symm
  have hroots' : s.disk.Sides (layout.sourceRoot pull.direction)
      (layout.destinationRoot pull.direction) B A := hpull ▸ hback
  have hlasting : Lasting pull.direction Restorable := hpull ▸ Restorable.lasting
  obtain ⟨s', hrun', hpulled⟩ := hrestorable.passes hlasting hdry' hwilling hroots' hinner
  have hkept' := hpulled.kept hback.plain
  refine ⟨s', hrun', (hpulled.paired hlasting hback (fun _ hp => hp) hrestorable).2, ?_, ?_, ?_⟩
  · intro q hq n rule content tag hrule hfile
    exact hpushed.restored hpulled hpush hpull hsides hdirs' hq hrule hfile
  · intro x hx
    rw [← hsame] at hx ⊢
    apply hpulled.left hback hrestorable
    intro q hq n heq hrule
    rw [List.append_assoc] at heq
    exact hx q hq n (List.append_cancel_left heq) hrule
  · intro modes hmodes
    have hbalanced : layout.Balanced A B s'.disk :=
      ⟨(hback.kept hkept').symm, hpulled.balanced hpull hback hrestorable⟩
    exact hbalanced.runs hinner hmodes

end RoundTrip

namespace Sample

/-- The roots of the sample, with a local text whose lines end in different ways. -/
def mixed : Disk where
  start := []
  nodes := [([name "local"], .directory), ([name "guest"], .directory),
    ([name "local", name "a.c"], .file (Utf8.ofString "x\r\ny\rz") none)]

/-- The session after a push of the mixed text. -/
def mixedPushed : Session := ((Run.sync layout push).run (Session.start mixed)).2

theorem run_push_mixed :
    (Run.sync layout push).run (Session.start mixed) = (.ok (), mixedPushed) := by
  have hok : ((Run.sync layout push).run (Session.start mixed)).1 = .ok () := by decide +kernel
  rw [mixedPushed, ← hok, Prod.mk.eta]

end Sample

/-- The mixed text comes back with line feeds, and then a push and a pull find
nothing to do. -/
theorem push_then_pull_sample :
    ∃ s, (Run.sync Sample.layout Sample.pull).run (Session.start Sample.mixedPushed.disk) =
        (.ok (), s) ∧ s.tally.deleted = 0 ∧
      s.disk.node? [Sample.name "local", Sample.name "a.c"] =
        some (.file (Utf8.ofString "x\ny\nz\n") none) ∧
      ∀ outcome ∈ Sample.layout.runs s.disk [Sample.push, Sample.pull], outcome.1 = .ok () ∧
        outcome.2.tally.converted = 0 := by
  obtain ⟨s, hrun, hdeleted, htexts, -, hruns⟩ := push_then_pull
    (IsPlain.plain (by decide +kernel)) Sample.check_layout
    (A := [Sample.name "local"]) (B := [Sample.name "guest"])
    (by constructor <;> decide +kernel) (by constructor <;> decide +kernel)
    (by decide +kernel) (by decide +kernel) (by decide +kernel) rfl rfl
    (show Sample.pull.direction = .pull from rfl) rfl trivial Sample.run_push_mixed
  have hmem : Path.ofString "." ∈ Sample.layout.subdirs := List.mem_singleton.mpr rfl
  obtain ⟨restored, hfile, text, htext, rfl⟩ := htexts _ hmem (Sample.name "a.c")
    RuleTable.sourceText (Utf8.ofString "x\r\ny\rz") none (by decide +kernel) (by decide +kernel)
  have hnames : (Path.ofString ".").names = [] := by decide +kernel
  have hsame : text = "x\r\ny\rz".toList := by
    rw [Utf8.ofString, Utf8.decode_encode] at htext
    exact (Option.some.inj htext).symm
  rw [hnames, hsame] at hfile
  refine ⟨s, hrun, hdeleted, hfile.trans (by decide +kernel), ?_⟩
  intro outcome houtcome
  obtain ⟨hok, hconverted, -, -⟩ := hruns [Sample.push, Sample.pull]
    (by simp [Sample.push, Sample.pull, Tagger.Willing]) outcome houtcome
  exact ⟨hok, hconverted⟩

end GuestSync
