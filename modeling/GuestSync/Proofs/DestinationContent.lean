/-
# GuestSync.Proofs.DestinationContent -- what becomes of a converted file

Right after an entry was converted, its destination is read as the converted content,
whatever links lead there. What the run does afterwards may spoil it: another entry
may be converted into the same file by another path, and the cleanup takes stale
entries away by their names, although a converted name may be a link through one of
them. These are the only two ways, and each event of the journal can be asked whether
it is one of them.
-/
import GuestSync.Proofs.EntryRuns
import GuestSync.Proofs.Journals

namespace GuestSync

open Disk

/-! ## Events that spoil a content -/

/-- The event takes away the content that a path leads to: it writes another content in
the same place, or it removes something on the way. -/
inductive Event.Spoils (d : Disk) (p : Path) (content : Bytes) : Event → Prop
  | write {q : Path} {other : Bytes} {e : Disk} (written : d.write q other = .ok e)
      (place : d.locate .created q.steps = d.locate .followed p.steps)
      (differs : other ≠ content) : Spoils d p content (.write q other)
  | delete {q : Path} {l : Location} {e : Disk} (removed : d.remove q = .ok e)
      (place : d.locate .taken q.bareSteps = .ok l) (trail : l ∈ d.trail p) :
      Spoils d p content (.delete q)

section Events

variable {tagger : Tagger} {d : Disk} {p : Path} {content : Bytes}

variable (tagger) in
/-- **One event.** A content stays unless the event spoils it. -/
theorem Event.read_act_iff (h : d.read p = .ok content) (ev : Event) :
    (ev.act tagger d).read p = .ok content ↔ ¬ ev.Spoils d p content := by
  cases ev with
  | report dryRun progress => exact iff_of_true h nofun
  | announce path => exact iff_of_true h nofun
  | makeDirectories path => exact iff_of_true (read_of_makeDirectories h path) nofun
  | tag call accepted =>
    refine iff_of_true ?_ nofun
    cases tagger with
    | listener refusal => exact h
    | disk =>
      cases accepted with
      | false => exact h
      | true =>
        cases htag : d.setTag call.path call.block with
        | ok e => simpa [act, htag, Disk.after] using read_of_setTag h htag
        | error e => simpa [act, htag, Disk.after] using h
  | write path other =>
    cases hwrite : d.write path other with
    | error e =>
      refine iff_of_true (by simpa [act, hwrite, Disk.after] using h) ?_
      intro hspoils
      cases hspoils with
      | write written place differs => simp [hwrite] at written
    | ok e =>
      rw [show (Event.write path other).act tagger d = e by simp [act, hwrite, Disk.after],
        read_of_write h hwrite]
      split
      · next hplace =>
        rw [Except.ok.injEq]
        constructor
        · intro hsame hspoils
          cases hspoils with
          | write written place differs => exact differs hsame
        · intro hno
          by_contra hne
          exact hno (.write hwrite hplace hne)
      · next hplace =>
        refine iff_of_true rfl ?_
        intro hspoils
        cases hspoils with
        | write written place differs => exact hplace place
  | delete path =>
    cases hremove : d.remove path with
    | error e =>
      refine iff_of_true (by simpa [act, hremove, Disk.after] using h) ?_
      intro hspoils
      cases hspoils with
      | delete removed place trail => simp [hremove] at removed
    | ok e =>
      rw [show (Event.delete path).act tagger d = e by simp [act, hremove, Disk.after],
        read_of_remove h hremove]
      split
      · next hcut =>
        obtain ⟨l, htrail, hplace⟩ := hcut
        exact iff_of_false (by simp) fun hno => hno (.delete hremove hplace htrail)
      · next hcut =>
        refine iff_of_true rfl ?_
        intro hspoils
        cases hspoils with
        | delete removed place trail => exact hcut ⟨_, trail, place⟩

/-- A content that some events have taken away was spoiled by one of them, which found
it and left something else. -/
theorem Event.read_events (h : d.read p = .ok content) (es : List Event) :
    (es.foldl (Event.act tagger) d).read p = .ok content ∨
      ∃ done ev rest, es = done ++ ev :: rest ∧
        (done.foldl (Event.act tagger) d).read p = .ok content ∧
        ev.Spoils (done.foldl (Event.act tagger) d) p content ∧
        ((done ++ [ev]).foldl (Event.act tagger) d).read p ≠ .ok content := by
  induction es using List.reverseRecOn with
  | nil => exact .inl h
  | append_singleton es ev ih =>
    rcases ih with hread | ⟨done, ev', rest, rfl, hread, hspoils, hlost⟩
    · have hone := Event.read_act_iff tagger hread ev
      rw [List.foldl_append]
      by_cases hspoils : ev.Spoils (es.foldl (Event.act tagger) d) p content
      · refine .inr ⟨es, ev, [], rfl, hread, hspoils, ?_⟩
        rw [List.foldl_append]
        exact fun hafter => hone.mp hafter hspoils
      · exact .inl (hone.mpr hspoils)
    · exact .inr ⟨done, ev', rest ++ [ev], by simp, hread, hspoils, hlost⟩

end Events

/-! ## The turn of an entry -/

section Turns

variable {layout : Layout} {mode : Mode} {before after : List Path} {q : Path} {d : Disk}
variable {s s₀ : Session}

/-- The path that an entry of a subdirectory's source is converted to. -/
def Layout.target (layout : Layout) (direction : Direction) (q : Path) (name : String) : Path :=
  ((layout.destinationRoot direction).join q).join (Path.ofString name)

/-- After the entries of a subdirectory's source were listed in the session `s₀`, the
entry `e` has its turn between the sessions `s₁` and `s₂`. -/
structure Layout.Turn (layout : Layout) (mode : Mode) (q : Path) (s₀ : Session)
    (earlier : List Entry) (e : Entry) (s₁ s₂ : Session) : Prop where
  before : (layout.deal mode q earlier).run s₀ = (.ok (), s₁)
  own : (layout.deal mode q [e]).run s₁ = (.ok (), s₂)

/-- What the run does after the turn of an entry: the later entries, the cleanup, and
the passes for the other subdirectories. -/
def Layout.remainder (layout : Layout) (mode : Mode) (q : Path) (after : List Path)
    (entries later : List Entry) : Run Unit := do
  layout.deal mode q later
  Run.cleanUp layout.rules mode q ((layout.destinationRoot mode.direction).join q)
    (Plan.ofSource layout.rules ((layout.destinationRoot mode.direction).join q) entries)
  after.forM (Run.pass layout mode)

/-- Every entry has its turn, once the source of a subdirectory has been dealt with. -/
theorem turn_of_deal {earlier later : List Entry} {e : Entry} {s₃ : Session}
    (h : (layout.deal mode q (earlier ++ e :: later)).run s₀ = (.ok (), s₃)) :
    ∃ s₁ s₂, layout.Turn mode q s₀ earlier e s₁ s₂ ∧
      (layout.deal mode q later).run s₂ = (.ok (), s₃) := by
  unfold Layout.deal at h
  rw [List.map_append, List.map_cons, Run.forM_split] at h
  obtain ⟨_, s₁, hearlier, hturn⟩ := Run.run_bind_eq_ok.mp h
  obtain ⟨_, s₂, hown, hlater⟩ := Run.run_bind_eq_ok.mp hturn
  exact ⟨s₁, s₂, ⟨hearlier, Run.run_bind_eq_ok.mpr ⟨_, s₂, hown, rfl⟩⟩, hlater⟩

/-- Every entry of a run that gets through has its turn. -/
theorem turn_of_sync_ok (hdry : mode.dryRun = false) (hsplit : layout.subdirs = before ++ q :: after)
    (hrun : (Run.sync layout mode).run (Session.start d) = (.ok (), s)) :
    ∃ s₀ entries, layout.Arrives mode before q d s₀ ∧
      s₀.disk.entries ((layout.sourceRoot mode.direction).join q) = .ok entries ∧
      ∀ earlier e later, entries = earlier ++ e :: later →
        ∃ s₁ s₂, layout.Turn mode q s₀ earlier e s₁ s₂ ∧
          (layout.remainder mode q after entries later).run s₂ = (.ok (), s) := by
  rw [Run.sync_eq hdry hsplit] at hrun
  obtain ⟨_, _, harrive, hlisting⟩ := Run.run_bind_eq_ok.mp hrun
  obtain ⟨entries, s₀, hlist, hworking⟩ := Run.run_bind_eq_ok.mp hlisting
  obtain ⟨hentries, rfl⟩ := Run.list_of_run_ok hlist
  obtain ⟨_, s₃, hloop, hrest⟩ := Run.run_bind_eq_ok.mp hworking
  rw [Plan.ofSource_actions] at hloop
  refine ⟨s₀, entries, harrive, hentries, ?_⟩
  rintro earlier e later rfl
  obtain ⟨s₁, s₂, hturn, hlater⟩ := turn_of_deal hloop
  exact ⟨s₁, s₂, hturn, Run.run_bind_eq_ok.mpr ⟨_, s₃, hlater, hrest⟩⟩

/-- Right after its turn the destination of an entry is read as the converted content,
whatever is on the disk. -/
theorem Layout.Turn.converts {earlier : List Entry} {e : Entry} {s₁ s₂ : Session}
    (h : layout.Turn mode q s₀ earlier e s₁ s₂) (hdry : mode.dryRun = false) {name : String}
    {rule : Rule} (hverdict : e.verdict layout.rules = .ok (name, rule)) :
    ∃ content output, s₁.disk.read e.path = .ok content ∧
      convert rule.kind mode.direction content = .ok output ∧
      s₂.disk.read (layout.target mode.direction q name) = .ok output := by
  obtain ⟨_, s₃, hown, hend⟩ := Run.run_bind_eq_ok.mp h.own
  obtain ⟨-, rfl⟩ := Prod.mk.inj hend
  rw [Entry.sourceAction, hverdict] at hown
  obtain ⟨content, output, f, hcontent, hconvert, hwrite, htag⟩ :=
    Run.convertFile_of_run_ok hdry hown
  refine ⟨content, output, hcontent, hconvert, ?_⟩
  have hread : f.read (layout.target mode.direction q name) = .ok output := by
    rcases hwrite with ⟨-, hsame⟩ | hwrite
    · exact hsame
    · exact read_write hwrite
  rcases htag with hsame | htag
  · rwa [hsame]
  · exact read_of_setTag hread htag

theorem Run.journaled_remainder (layout : Layout) (mode : Mode) (q : Path) (after : List Path)
    (entries later : List Entry) :
    Run.Journaled mode.tagger (layout.remainder mode q after entries later) :=
  (Run.journaled_loop mode q _).bind fun _ =>
    (Run.journaled_cleanUp mode q layout.rules _ _).bind fun _ =>
      .forM after (Run.journaled_pass layout mode)

/-! ## Where nothing is spoiled -/

/-- The destination directory of a run that comes to list the source. -/
theorem Layout.Arrives.unlinked (h : layout.Arrives mode before q d s₀) (hdry : mode.dryRun = false)
    (hne : ∀ r ∈ before ++ q :: after,
      ((layout.destinationRoot mode.direction).join r).isEmpty = false)
    (hd : d.Unlinked layout.rules) :
    s₀.disk.Unlinked layout.rules ∧
      ∃ l, s₀.disk.DirectoryAt ((layout.destinationRoot mode.direction).join q) l := by
  obtain ⟨_, s, hbefore, hmake⟩ := Run.run_bind_eq_ok.mp h
  obtain ⟨-, hs⟩ := Run.steady_of_passes hdry (fun r hr => hne r (by simp [hr])) hd hbefore
  have hmade := Run.makeDirectories_of_run_ok hmake
  obtain ⟨-, hunlinked, hdir⟩ := hs.makeDirectories (hne q (by simp))
  rw [hmade] at hunlinked hdir
  exact ⟨hunlinked, hdir rfl⟩

/-- Between the turn of an entry and the end of its pass only entries of other names
change: no later source entry has that name, and the cleanup expects what it is
converted to. -/
theorem changed_beside {b : Disk} {S : Path} {ns₁ ns₂ : List Name} {n : Name} {l : Location}
    {name : String} {rule : Rule} {s₁ s₂ s₃ : Session} (hdry : mode.dryRun = false)
    (hproper : ∀ k ∈ ns₂, Name.Proper k) (hfresh : n ∉ ns₂)
    (hverdict : (b.entry S n).verdict layout.rules = .ok (name, rule))
    (hs : s₁.disk.Unlinked layout.rules)
    (hT : s₁.disk.DirectoryAt ((layout.destinationRoot mode.direction).join q) l)
    (hne : ((layout.destinationRoot mode.direction).join q).isEmpty = false)
    (hlater : (layout.deal mode q (ns₂.map (b.entry S))).run s₁ = (.ok (), s₂))
    (hclean : (Run.cleanUp layout.rules mode q ((layout.destinationRoot mode.direction).join q)
      (Plan.ofSource layout.rules ((layout.destinationRoot mode.direction).join q)
        (ns₁.map (b.entry S) ++ b.entry S n :: ns₂.map (b.entry S)))).run s₂ = (.ok (), s₃)) :
    s₁.disk.EntriesChanged layout.rules l (· ≠ n) s₃.disk := by
  have hothers : s₁.disk.EntriesChanged layout.rules l (· ≠ n) s₂.disk :=
    Run.changed_of_deal hdry hproper (fun k hk hsame => hfresh (hsame ▸ hk)) hs hT hne hlater
  refine hothers.trans
    (Run.changed_of_cleanUp hdry ?_ hothers.unlinked (hT.steady hothers.steady) hne hclean)
  rintro k name' hk hnot rfl
  obtain rfl : name = name' := Option.some.inj ((Run.name_of_verdict_ok hverdict).symm.trans hk)
  apply hnot
  rw [Plan.mem_ofSource_expected]
  exact ⟨b.entry S k, by simp, by rw [Entry.expectedName?, hverdict]⟩

/-- Among links that no rule is for, an entry that was converted keeps its content while
the run goes on, unless a later pass comes to the same directory. -/
theorem kept_in_remainder {earlier later : List Entry} {e : Entry} {s₁ s₂ : Session}
    {name : String} {rule : Rule} {output : Bytes} (hdry : mode.dryRun = false)
    (hsplit : layout.subdirs = before ++ q :: after) (hcheck : layout.check = .ok ())
    (hd : d.Unlinked layout.rules) (harrive : layout.Arrives mode before q d s₀)
    (hentries : s₀.disk.entries ((layout.sourceRoot mode.direction).join q) =
      .ok (earlier ++ e :: later))
    (hverdict : e.verdict layout.rules = .ok (name, rule))
    (hturn : layout.Turn mode q s₀ earlier e s₁ s₂)
    (hrest : (layout.remainder mode q after (earlier ++ e :: later) later).run s₂ = (.ok (), s))
    (hapart : ∀ r ∈ after,
      s.disk.locate .followed ((layout.destinationRoot mode.direction).join r).steps ≠
        s.disk.locate .followed ((layout.destinationRoot mode.direction).join q).steps)
    (hread : s₂.disk.read (layout.target mode.direction q name) = .ok output) :
    s.disk.read (layout.target mode.direction q name) = .ok output := by
  have hne : ∀ r ∈ before ++ q :: after,
      ((layout.destinationRoot mode.direction).join r).isEmpty = false := by
    intro r hr
    exact Path.isEmpty_join (Path.roots_of_check hcheck mode.direction).2
      (Path.inner_of_check hcheck r (hsplit ▸ hr))
  obtain ⟨h₀, l, hT⟩ := harrive.unlinked hdry hne hd
  obtain ⟨ns, hns, hproper, hnodup⟩ := names_of_entries h₀.proper hentries
  obtain ⟨ns₁, ns', rfl, rfl, hns'⟩ := List.map_eq_append_iff.mp hns.symm
  obtain ⟨n, ns₂, rfl, rfl, rfl⟩ := List.map_eq_cons_iff.mp hns'
  obtain ⟨hpath, hrule⟩ := entry_of_verdict_ok hverdict
  rw [Layout.target, hpath] at hread ⊢
  have hq := hne q (by simp)
  have hn := hproper n (by simp)
  -- Up to the end of the turn.
  have hearlier := Run.changed_of_deal (N := fun _ => True) hdry (fun k hk => hproper k (by simp [hk]))
    (fun _ _ => trivial) h₀ hT hq hturn.before
  have hown : s₁.disk.EntriesChanged layout.rules l (fun _ => True) s₂.disk := by
    have hrun : (layout.deal mode q ([n].map (s₀.disk.entry _))).run s₁ = (.ok (), s₂) := hturn.own
    exact Run.changed_of_deal hdry (fun k hk => List.mem_singleton.mp hk ▸ hn) (fun _ _ => trivial)
      hearlier.unlinked (hT.steady hearlier.steady) hq hrun
  have hT₂ := (hT.steady hearlier.steady).steady hown.steady
  obtain ⟨t, hfile⟩ := (hown.unlinked.read_entry hT₂ hq hn hrule).mp hread
  -- The rest of the pass.
  obtain ⟨_, s₄, hlater, hcleaning⟩ := Run.run_bind_eq_ok.mp hrest
  obtain ⟨_, s₅, hclean, hafter⟩ := Run.run_bind_eq_ok.mp hcleaning
  have hfresh : n ∉ ns₂ := (List.nodup_cons.mp (List.nodup_append.mp hnodup).2.1).1
  have hkept := changed_beside hdry (fun k hk => hproper k (by simp [hk])) hfresh hverdict
    hown.unlinked hT₂ hq hlater hclean
  have hfile' : s₅.disk.node? (l ++ [n]) = some (.file output t) := by
    rw [hkept.others (l ++ [n]) (by simpa using fun k hk => Ne.symm hk), hfile]
  -- The passes for the other subdirectories.
  have hne' : ∀ r ∈ after, ((layout.destinationRoot mode.direction).join r).isEmpty = false :=
    fun r hr => hne r (by simp [hr])
  have hT₅ := hT₂.steady hkept.steady
  obtain ⟨hsteady, hunlinked⟩ := Run.steady_of_passes hdry hne' hkept.unlinked hafter
  exact (hunlinked.read_entry (hT₅.steady hsteady) hq hn hrule).mpr
    ⟨t, Run.kept_of_passes hdry hne' hkept.unlinked hafter hT₅ hfile' hapart⟩

/-- **What becomes of a converted file.** In a run that gets through, dry runs aside, every
source entry that the plan converts has its turn, whatever links there are. Right after
it the destination is read as the converted content of the source file. At the end it is
still, or an event that came later found it so and spoiled it: a write of another content
in the same place, or a deletion of something on the way there. Among links that no rule is for
nothing is spoiled, unless a later subdirectory leads to the same destination
directory. -/
theorem converted_content_kept_or_spoiled (hdry : mode.dryRun = false)
    (hsplit : layout.subdirs = before ++ q :: after)
    (hrun : (Run.sync layout mode).run (Session.start d) = (.ok (), s)) :
    ∃ s₀ entries, layout.Arrives mode before q d s₀ ∧
      s₀.disk.entries ((layout.sourceRoot mode.direction).join q) = .ok entries ∧
      ∀ earlier e later, entries = earlier ++ e :: later →
        ∀ name rule, e.verdict layout.rules = .ok (name, rule) →
          ∃ s₁ s₂ content output events, layout.Turn mode q s₀ earlier e s₁ s₂ ∧
            s₁.disk.read e.path = .ok content ∧
            convert rule.kind mode.direction content = .ok output ∧
            s₂.disk.read (layout.target mode.direction q name) = .ok output ∧
            s₂.Led mode.tagger events s ∧
            (s.disk.read (layout.target mode.direction q name) = .ok output ∨
              ∃ done ev rest, events = done ++ ev :: rest ∧
                (done.foldl (Event.act mode.tagger) s₂.disk).read
                  (layout.target mode.direction q name) = .ok output ∧
                ev.Spoils (done.foldl (Event.act mode.tagger) s₂.disk)
                  (layout.target mode.direction q name) output ∧
                ((done ++ [ev]).foldl (Event.act mode.tagger) s₂.disk).read
                  (layout.target mode.direction q name) ≠ .ok output) ∧
            (layout.check = .ok () → d.Unlinked layout.rules →
              (∀ r ∈ after,
                s.disk.locate .followed ((layout.destinationRoot mode.direction).join r).steps ≠
                  s.disk.locate .followed ((layout.destinationRoot mode.direction).join q).steps) →
              s.disk.read (layout.target mode.direction q name) = .ok output) := by
  obtain ⟨s₀, entries, harrive, hentries, hturns⟩ := turn_of_sync_ok hdry hsplit hrun
  refine ⟨s₀, entries, harrive, hentries, ?_⟩
  rintro earlier e later rfl name rule hverdict
  obtain ⟨s₁, s₂, hturn, hrest⟩ := hturns earlier e later rfl
  obtain ⟨content, output, hcontent, hconvert, hread⟩ := hturn.converts hdry hverdict
  obtain ⟨events, hled⟩ := (Run.journaled_remainder layout mode q after _ later).led hrest
  refine ⟨s₁, s₂, content, output, events, hturn, hcontent, hconvert, hread, hled, ?_, ?_⟩
  · rw [hled.disk]
    exact Event.read_events hread events
  · intro hcheck hd hapart
    exact kept_in_remainder hdry hsplit hcheck hd harrive hentries hverdict hturn hrest hapart hread

end Turns

namespace Sample

/-- A link on the guest that no rule is for, and leads to a file that is yet to come. -/
def announced : Disk where
  start := []
  nodes := [([name "local"], .directory), ([name "guest"], .directory),
    ([name "local", name "a.c"], .file (Utf8.ofString "x\n") none),
    ([name "guest", name "notes"], .link (Path.ofString "a.c"))]

/-- The session after a push of that. -/
def delivered : Session := ((Run.sync layout push).run (Session.start announced)).2

/-- A file on the guest whose local name is a link to a local file without a source. -/
def borrowed : Disk where
  start := []
  nodes := [([name "local"], .directory), ([name "guest"], .directory),
    ([name "guest", name "a.c"], .file (Utf8.ofString "x\r") none),
    ([name "local", name "a.c"], .link (Path.ofString "old.c")),
    ([name "local", name "old.c"], .file (Utf8.ofString "y\n") none)]

/-- Two files on the guest, and the local name of one is a link to that of the other. -/
def shared : Disk where
  start := []
  nodes := [([name "local"], .directory), ([name "guest"], .directory),
    ([name "guest", name "a.c"], .file (Utf8.ofString "x\r") none),
    ([name "guest", name "b.c"], .file (Utf8.ofString "y\r") none),
    ([name "local", name "a.c"], .link (Path.ofString "b.c"))]

end Sample

/-- A push gets the converted content to the guest, where a link is waiting for it. -/
theorem converted_content_kept_or_spoiled_sample :
    (Run.sync Sample.layout Sample.push).run (Session.start Sample.announced) =
        (.ok (), Sample.delivered) ∧
      Sample.delivered.disk.read (Sample.layout.target .push (Path.ofString ".") "a.c") =
        .ok (Utf8.ofString "x\r") := by
  have hrun : (Run.sync Sample.layout Sample.push).run (Session.start Sample.announced) =
      (.ok (), Sample.delivered) := by
    have hok : ((Run.sync Sample.layout Sample.push).run (Session.start Sample.announced)).1 =
        .ok () := by decide +kernel
    rw [Sample.delivered, ← hok, Prod.mk.eta]
  refine ⟨hrun, ?_⟩
  obtain ⟨s₀, entries, harrive, hentries, hall⟩ := converted_content_kept_or_spoiled rfl
    (show Sample.layout.subdirs = [] ++ Path.ofString "." :: [] from rfl) hrun
  obtain rfl : ((Run.approach Sample.layout Sample.push [] (Path.ofString ".")).run
      (Session.start Sample.announced)).2 = s₀ := by
    rw [show (Run.approach Sample.layout Sample.push [] (Path.ofString ".")).run
      (Session.start Sample.announced) = _ from harrive]
  -- There is one source entry, and its turn gives the file on the guest.
  have hone : ((Run.approach Sample.layout Sample.push [] (Path.ofString ".")).run
      (Session.start Sample.announced)).2.disk.entries
        ((Sample.layout.sourceRoot Sample.push.direction).join (Path.ofString ".")) =
          .ok [⟨Path.ofString "local/./a.c", some "a.c", .file⟩] := by decide +kernel
  obtain rfl := Except.ok.inj (hentries.symm.trans hone)
  obtain ⟨rule, hkind, hverdict⟩ : ∃ rule : Rule, rule.kind = .text ∧
      Entry.verdict Sample.layout.rules ⟨Path.ofString "local/./a.c", some "a.c", .file⟩ =
        .ok ("a.c", rule) := ⟨_, rfl, rfl⟩
  obtain ⟨s₁, s₂, content, output, events, hturn, hcontent, hconvert, -, -, -, hread⟩ :=
    hall [] _ [] rfl "a.c" rule hverdict
  obtain rfl := (Prod.mk.inj hturn.before).2
  have hfile : ((Run.approach Sample.layout Sample.push [] (Path.ofString ".")).run
      (Session.start Sample.announced)).2.disk.read (Path.ofString "local/./a.c") =
        .ok (Utf8.ofString "x\n") := by decide +kernel
  obtain rfl := Except.ok.inj (hcontent.symm.trans hfile)
  have houtput : convert .text .push (Utf8.ofString "x\n") = .ok (Utf8.ofString "x\r") := by
    decide +kernel
  rw [hkind] at hconvert
  obtain rfl := Except.ok.inj (hconvert.symm.trans houtput)
  exact hread Sample.check_layout (IsUnlinked.unlinked (by decide +kernel)) (by simp)

/-- A pull converts a file through a link and then deletes what the link leads to, and
of two files in one place only the second keeps its content. -/
theorem linked_target_loses_content :
    Sample.layout.check = .ok () ∧
      (Sample.borrowed.isDirectory Sample.layout.localRoot = true ∧
        Sample.borrowed.isDirectory Sample.layout.guestRoot = true ∧
        Sample.borrowed.read (Path.ofString "guest/a.c") = .ok (Utf8.ofString "x\r") ∧
        convert .text .pull (Utf8.ofString "x\r") = .ok (Utf8.ofString "x\n") ∧
        ((Run.sync Sample.layout Sample.pull).run (Session.start Sample.borrowed)).1 = .ok () ∧
        ((Run.sync Sample.layout Sample.pull).run (Session.start Sample.borrowed)).2.disk.read
          (Sample.layout.target .pull (Path.ofString ".") "a.c") = .error .notFound) ∧
      Sample.shared.isDirectory Sample.layout.localRoot = true ∧
        Sample.shared.isDirectory Sample.layout.guestRoot = true ∧
        Sample.shared.read (Path.ofString "guest/a.c") = .ok (Utf8.ofString "x\r") ∧
        ((Run.sync Sample.layout Sample.pull).run (Session.start Sample.shared)).1 = .ok () ∧
        ((Run.sync Sample.layout Sample.pull).run (Session.start Sample.shared)).2.disk.read
          (Sample.layout.target .pull (Path.ofString ".") "a.c") = .ok (Utf8.ofString "y\n") := by
  decide +kernel

end GuestSync
