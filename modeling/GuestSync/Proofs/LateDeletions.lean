/-
# GuestSync.Proofs.LateDeletions -- deletions come last in a pass

A pass deletes only after it has dealt with its whole source. So whatever a journal tells
of a deletion, it has told before of every recognized source file of that pass that it was
found or written in the destination and was tagged, and from there up to the deletion it
tells of nothing but stale entries. A pass whose source phase fails ends the run before
anything is deleted in it.
-/
import GuestSync.Proofs.RunVisits
import GuestSync.Proofs.SourceLoss

namespace GuestSync

section Deletions

variable {layout : Layout} {mode : Mode} {q : Path} {d : Disk} {s t : Session}

/-- Until its source is dealt with a pass deletes nothing. -/
theorem Layout.tells_sourcePhase :
    Run.Tells mode.tagger (fun _ => True) (∀ p, · ≠ .delete p) (layout.sourcePhase mode q) := by
  unfold Layout.sourcePhase
  apply (Layout.tells_opening (by simp)).bind fun _ _ _ _ => trivial
  intro entries
  apply (Layout.tells_deal (by simp) (by simp) (by simp)).bind fun _ _ _ _ => trivial
  intro _
  exact .pure entries

/-- A recognized source file has gone all the way in its turn. -/
theorem Layout.Turn.delivers {earlier : List Entry} {e : Entry} {s₀ s₁ s₂ : Session}
    {name : String} {rule : Rule} (h : layout.Turn mode q s₀ earlier e s₁ s₂)
    (hname : e.name = some name) (hrule : layout.rules.forName? name = some rule)
    (hfile : e.kind = .file) :
    mode.Delivers q e.path (layout.target mode.direction q name) rule s₁ s₂ := by
  obtain ⟨_, s₃, hown, hend⟩ := Run.run_bind_eq_ok.mp h.own
  obtain ⟨-, rfl⟩ := Prod.mk.inj hend
  rw [← Entry.decided_iff.mp (.convert hname hrule hfile)] at hown
  exact (Run.outcome_execute hown).delivers

/-- A source that has been dealt with. -/
theorem Layout.sourcePhase_ok {entries : List Entry}
    (h : (layout.sourcePhase mode q).run s = (.ok entries, t)) :
    ∃ s₁, (layout.opening mode q).run s = (.ok entries, s₁) ∧
      (layout.deal mode q entries).run s₁ = (.ok (), t) := by
  obtain ⟨entries', s₁, hopening, hrest⟩ := Run.run_bind_eq_ok.mp h
  obtain ⟨_, s₂, hdeal, hend⟩ := Run.run_bind_eq_ok.mp hrest
  obtain ⟨hentries, rfl⟩ := Prod.mk.inj hend
  obtain rfl := Except.ok.inj hentries
  exact ⟨s₁, hopening, hdeal⟩

/-- **Where a deletion comes from**: from the second half of a pass. -/
theorem Run.deletion_of_sync {result : Except Failure Unit} {told rest : List Event} {p : Path}
    (hrun : (Run.sync layout mode).run (Session.start d) = (result, s))
    (h : s.journal = told ++ Event.delete p :: rest) :
    ∃ before q after s₀ s₂ entries later,
      layout.subdirs = before ++ q :: after ∧
      (before.forM (Run.pass layout mode)).run (Session.start d) = (.ok (), s₀) ∧
      (layout.sourcePhase mode q).run s₀ = (.ok entries, s₂) ∧
      told = s₂.journal ++ later ∧
      ∀ ev ∈ later ++ [Event.delete p],
        ev.Clears layout.rules ((layout.destinationRoot mode.direction).join q) entries := by
  obtain ⟨before, v, after, r, s₃, rest₁, hvisit, hpass, hbefore, hin⟩ :=
    Run.told_forM (Run.journaled_pass layout mode) hrun h List.nil_prefix
  obtain ⟨others, hsplit, hpasses, -⟩ := Run.visits_split hvisit
  rw [Layout.pass_halves] at hpass
  rcases Run.told_bind (layout.journaled_closing mode v.1) hpass hin with
    ⟨r', s₂, rest₂, hsource, hin'⟩ | ⟨entries, s₂, hsource, htold, hclosing⟩
  · obtain ⟨later, -, hnone⟩ := Layout.tells_sourcePhase.split hsource hin' hbefore
    exact absurd rfl (hnone (.delete p) (by simp) p)
  · obtain ⟨later, htold', hclears⟩ := Layout.tells_closing.split hclosing hin htold
    exact ⟨_, v.1, others, v.2, s₂, entries, later, hsplit, hpasses, hsource, htold', hclears⟩

/-- **Deletions come last.** Whatever is on the disk, whoever answers the tag calls and
however the run ends: where its journal tells of a deletion, it is in a pass whose source
has been listed and dealt with. Every entry with a recognized name that is a file has had
its turn, in which it was read and converted and its destination was found to hold the
result or got it, and if the run gives tags then this one was accepted. From there up to
the deletion the journal tells of nothing but deletions in the destination directory, each
under a recognized name that no source file has. Where a pass fails before its source is
dealt with, the run ends there, and has deleted nothing since the passes before. -/
theorem deletions_come_last {result : Except Failure Unit}
    (hrun : (Run.sync layout mode).run (Session.start d) = (result, s)) :
    (∀ told p rest, s.journal = told ++ Event.delete p :: rest →
      ∃ before q after s₀ s₁ s₂ entries later,
        layout.subdirs = before ++ q :: after ∧
        (before.forM (Run.pass layout mode)).run (Session.start d) = (.ok (), s₀) ∧
        (layout.opening mode q).run s₀ = (.ok entries, s₁) ∧
        (layout.deal mode q entries).run s₁ = (.ok (), s₂) ∧
        (∀ earlier e others name rule, entries = earlier ++ e :: others → e.name = some name →
          layout.rules.forName? name = some rule → e.kind = .file →
            ∃ t t', layout.Turn mode q s₁ earlier e t t' ∧
              mode.Delivers q e.path (layout.target mode.direction q name) rule t t' ∧
              t'.journal <+: s₂.journal) ∧
        told = s₂.journal ++ later ∧
        ∀ ev ∈ later ++ [Event.delete p],
          ev.Clears layout.rules ((layout.destinationRoot mode.direction).join q) entries) ∧
    ∀ before q after s₀ failure t, layout.subdirs = before ++ q :: after →
      (before.forM (Run.pass layout mode)).run (Session.start d) = (.ok (), s₀) →
      (layout.sourcePhase mode q).run s₀ = (.error failure, t) →
        result = .error failure ∧ s = t ∧ s.deletions = s₀.deletions := by
  refine ⟨?_, ?_⟩
  · intro told p rest h
    obtain ⟨before, q, after, s₀, s₂, entries, later, hsplit, hbefore, hsource, htold, hclears⟩ :=
      Run.deletion_of_sync hrun h
    obtain ⟨s₁, hopening, hdeal⟩ := Layout.sourcePhase_ok hsource
    refine ⟨before, q, after, s₀, s₁, s₂, entries, later, hsplit, hbefore, hopening, hdeal, ?_,
      htold, hclears⟩
    rintro earlier e others name rule rfl hname hrule hfile
    obtain ⟨t, t', hturn, hlater⟩ := turn_of_deal hdeal
    have hjournaled : Run.Journaled mode.tagger (layout.deal mode q others) :=
      Run.journaled_loop mode q _
    exact ⟨t, t', hturn, hturn.delivers hname hrule hfile, hjournaled.extends hlater⟩
  · intro before q after s₀ failure t hsplit hbefore hsource
    have hpass : (Run.pass layout mode q).run s₀ = (.error failure, t) := by
      rw [Layout.pass_halves, Run.run_bind_error hsource]
    rw [Run.sync, hsplit, Run.forM_split, Run.run_bind_ok hbefore, Run.run_bind_error hpass] at hrun
    obtain ⟨rfl, rfl⟩ := Prod.mk.inj hrun
    obtain ⟨es, hled, hnone⟩ := Layout.tells_sourcePhase s₀ trivial
    rw [hsource] at hled
    refine ⟨rfl, rfl, Run.filterMap_of_led hled ?_⟩
    intro e he
    cases e with
    | delete p => exact absurd rfl (hnone _ he p)
    | _ => rfl

end Deletions

/-- Before the push of the sample deletes the file without a source, the other one has got
its tag. -/
theorem deletions_come_last_sample :
    (Run.sync Sample.layout Sample.push).run (Session.start Sample.disk) =
        (.ok (), Sample.pushed) ∧
      ∃ told rest,
        Sample.pushed.journal = told ++ Event.delete (Path.ofString "guest/./old.c") :: rest ∧
        .tag ⟨Path.ofString "guest/./a.c", RuleTable.sourceText.info.block⟩ true ∈ told := by
  have hdelete : Sample.pushed.journal =
      Sample.pushed.journal.take 5 ++ Event.delete (Path.ofString "guest/./old.c") :: [] := by
    decide +kernel
  refine ⟨Sample.run_push, _, _, hdelete, ?_⟩
  obtain ⟨hlast, -⟩ := deletions_come_last Sample.run_push
  obtain ⟨before, q, after, s₀, s₁, s₂, entries, later, hsplit, hbefore, hopening, -, hdelivered,
    htold, -⟩ := hlast _ _ _ hdelete
  -- There is one pass, and one entry in its source.
  obtain ⟨rfl, rfl⟩ : before = [] ∧ q = Path.ofString "." := by
    rcases before with - | ⟨r, before⟩
    · exact ⟨rfl, (List.cons.inj hsplit).1.symm⟩
    · exact absurd (List.cons.inj hsplit).2.symm (by simp)
  obtain ⟨-, rfl⟩ := Prod.mk.inj hbefore
  have hentries : ((Sample.layout.opening Sample.push (Path.ofString ".")).run
      (Session.start Sample.disk)).1 = .ok [⟨Path.ofString "local/./a.c", some "a.c", .file⟩] := by
    decide +kernel
  rw [hopening] at hentries
  obtain rfl := Except.ok.inj hentries
  obtain ⟨t, t', -, ⟨output, same, e, -, htags⟩, hjournal⟩ :=
    hdelivered [] _ [] "a.c" RuleTable.sourceText rfl rfl (by decide +kernel) rfl
  rw [if_pos (show Sample.push.tags = true from rfl)] at htags
  have htarget : Sample.layout.target .push (Path.ofString ".") "a.c" =
      Path.ofString "guest/./a.c" := by decide +kernel
  rw [htold, ← htarget]
  apply List.mem_append_left
  apply hjournal.subset
  rw [htags.2]
  exact List.mem_append_right _ (List.mem_singleton.mpr rfl)

end GuestSync
