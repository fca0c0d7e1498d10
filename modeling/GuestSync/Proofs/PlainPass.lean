/-
# GuestSync.Proofs.PlainPass -- one pass over any plain disk

Nothing is assumed here of the two roots: they may be missing, lie in each other or be
the same, their paths may turn back, and files may be in the way. A pass then makes
directories where nothing was, and if its destination directory is there and its
source can be listed it settles entries of that directory, all of them or some. An
entry is settled as a whole, and in a push it was then given its tag, unless the
failure that ended the pass is that the tag of this entry was refused.
-/
import GuestSync.Proofs.PassEffect
import GuestSync.Proofs.Sprouting

namespace GuestSync

open Disk

/-- What the loops of a pass, complete or not, make of the disk `d` with the source
directory `k` and the destination directory `l`: some entries are settled and nothing
else is changed. -/
structure Mode.Partly (mode : Mode) (rules : RuleTable) (T : Path) (k l : Location)
    (refused : Name → Prop) (d : Disk) (s : Session) : Prop extends Disk.Kept d s.disk where
  entries : ∀ n, s.disk.node? (l ++ [n]) = d.node? (l ++ [n]) ∨
    mode.Ready rules n (d.node? (k ++ [n])) (d.node? (l ++ [n])) ∧
      s.disk.node? (l ++ [n]) = mode.settled rules n (d.node? (k ++ [n])) (d.node? (l ++ [n])) ∧
      (mode.Tagged rules T n (d.node? (k ++ [n])) s ∨ refused n)
  others : ∀ m, (∀ n, m ≠ l ++ [n]) → s.disk.node? m = d.node? m

namespace Mode

variable {mode : Mode} {rules : RuleTable} {T : Path} {k l : Location} {refused : Name → Prop}
variable {d : Disk} {s : Session}

theorem Partly.refl (hd : s.disk.Plain) : mode.Partly rules T k l refused s.disk s :=
  ⟨⟨rfl, hd, fun _ hm => hm⟩, fun _ => .inl rfl, fun _ _ => rfl⟩

/-- What the loops change is a recognized entry. -/
theorem Partly.cases (h : mode.Partly rules T k l refused d s) (m : Location) :
    s.disk.node? m = d.node? m ∨ ∃ n rule, m = l ++ [n] ∧ rules.forEntry? n = some rule ∧
      mode.Ready rules n (d.node? (k ++ [n])) (d.node? m) ∧
      s.disk.node? m = mode.settled rules n (d.node? (k ++ [n])) (d.node? m) ∧
      (mode.Tagged rules T n (d.node? (k ++ [n])) s ∨ refused n) := by
  by_cases hentry : ∃ n, m = l ++ [n]
  · obtain ⟨n, rfl⟩ := hentry
    rcases h.entries n with hsame | ⟨hready, hnew, htag⟩
    · exact .inl hsame
    · cases hrule : rules.forEntry? n with
      | none => exact .inl (hnew.trans (settled_of_no_rule hrule))
      | some rule => exact .inr ⟨n, rule, rfl, hrule, hready, hnew, htag⟩
  · left
    apply h.others
    intro n heq
    exact hentry ⟨n, heq⟩

/-- Loops that got through. -/
theorem Passed.partly (h : mode.Passed rules k l d s.disk) (hd : d.Plain)
    (hl : d.node? l = some .directory)
    (hready : ∀ n, mode.Ready rules n (d.node? (k ++ [n])) (d.node? (l ++ [n])))
    (htagged : ∀ n, mode.Tagged rules T n (d.node? (k ++ [n])) s) :
    mode.Partly rules T k l refused d s := by
  refine ⟨h.toKept, fun n => .inr ⟨hready n, h.entries n, .inl (htagged n)⟩, ?_⟩
  intro m hm
  exact (h.cases hd hl m).resolve_right fun ⟨n, heq, _⟩ => hm n heq

/-- Loops that failed. The way to their directory was there. -/
theorem Aborted.partly (h : mode.Aborted rules k l d s.disk) (hd : d.Plain)
    (hl : d.node? l = some .directory)
    (htagged : ∀ n, s.disk.node? (l ++ [n]) = d.node? (l ++ [n]) ∨
      mode.Tagged rules T n (d.node? (k ++ [n])) s ∨ refused n) :
    mode.Partly rules T k l refused d s := by
  refine ⟨h.toKept, ?_, ?_⟩
  · intro n
    rcases h.entries n with hsame | ⟨-, hready, hnew⟩
    · exact .inl hsame
    · exact (htagged n).imp_right fun htag => ⟨hready, hnew, htag⟩
  · intro m hm
    by_cases hway : m <+: l
    · have hdir := hd.directory_of_prefix_directory hway hl
      rw [hdir]
      exact h.directories m hdir
    · exact h.others m hway hm

end Mode

namespace Run

section Pass

variable {layout : Layout} {mode : Mode} {q : Path} {s : Session}

variable (layout mode q) in
/-- What a pass may have come to from the session `s`: it has added directories on the
way to its destination, and from there its loops have done some or all of their
work. -/
def Worked (refused : Name → Prop) (s s' : Session) : Prop :=
  ∃ e, s.disk.Sprouted e ((layout.destinationRoot mode.direction).join q).components ∧
    mode.Partly layout.rules ((layout.destinationRoot mode.direction).join q)
      (Step.goal s.disk.start ((layout.sourceRoot mode.direction).join q).bareSteps)
      (Step.goal s.disk.start ((layout.destinationRoot mode.direction).join q).bareSteps)
      refused e s'

/-- **One pass over any plain disk.** -/
theorem ends_pass_plain (hdry : mode.dryRun = false) (hd : s.disk.Plain)
    (hstart : s.disk.node? s.disk.start = some .directory)
    (hT : (layout.destinationRoot mode.direction).isEmpty = false) (hq : q.Inner) :
    Ends (pass layout mode q) s (fun _ s' => Worked layout mode q (fun _ => False) s s')
      (fun e s' => Worked layout mode q (fun n => mode.Refused
        (((layout.destinationRoot mode.direction).join q).child n) e) s s') := by
  have hp := Path.isEmpty_join hT hq
  obtain ⟨hsprout, hopens⟩ := sprouted_makeDirectories hd hstart hp
  have hrun := run_makeDirectories s ((layout.destinationRoot mode.direction).join q)
  unfold pass Worked
  simp only [hdry, Bool.false_and, Bool.false_eq_true, if_false, get_seq]
  generalize s.disk.makeDirectories ((layout.destinationRoot mode.direction).join q) = made
    at hsprout hopens hrun
  obtain ⟨e, answer⟩ := made
  dsimp only at hsprout hopens hrun
  generalize hs₁ : Session.mk e s.tally (s.journal ++
    [.makeDirectories ((layout.destinationRoot mode.direction).join q)]) = s₁ at hrun
  obtain rfl : s₁.disk = e := by rw [← hs₁]
  cases answer with
  | error err => exact Ends.bind_error hrun ⟨s₁.disk, hsprout, .refl hsprout.plain⟩
  | ok u =>
    have hdestination := hopens rfl
    have hlist := run_list s₁ ((layout.sourceRoot mode.direction).join q)
    apply Ends.bind_ok hrun
    cases hns : s₁.disk.list ((layout.sourceRoot mode.direction).join q) with
    | error err =>
      rw [hns] at hlist
      exact Ends.bind_error hlist ⟨s₁.disk, hsprout, .refl hsprout.plain⟩
    | ok ns =>
      rw [hns] at hlist
      obtain ⟨rfl, hsource⟩ := hsprout.plain.list_ok hns
      rw [hsprout.start] at hlist hsource
      have hl := hdestination.directory
      apply Ends.bind_ok hlist
      apply (ends_loops layout.rules q hdry hsprout.plain hsource hdestination).mono
      · rintro _ s' ⟨hready, -, htagged, hpassed⟩
        exact ⟨s₁.disk, hsprout, hpassed.partly hsprout.plain hl hready htagged⟩
      · rintro _ s' ⟨-, -, htagged, haborted⟩
        exact ⟨s₁.disk, hsprout, haborted.partly hsprout.plain hl htagged⟩

end Pass

end Run

end GuestSync
