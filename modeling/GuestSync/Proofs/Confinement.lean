/-
# GuestSync.Proofs.Confinement -- a run stays in its destination

A layout is checked by components, and a run joins texts. Here the two meet: however the
roots and the subdirectories are spelled, the one path of a pass at which a directory is
made has the components of the destination root and then the names of the subdirectory,
and every path that is written, tagged or deleted has one more name, which an entry can
have and which there is a rule for. That holds on any disk, through links as well: it is
a statement about paths, not about the places that they lead to.
-/
import GuestSync.Proofs.EntryRuns
import GuestSync.Proofs.ProperNames

namespace GuestSync

open Disk

/-- The path that an event is about to change. -/
def Event.target? : Event → Option Path
  | .makeDirectories path | .write path _ | .delete path => some path
  | .tag call _ => some call.path
  | .report .. | .announce _ => none

/-- The path has the components of the root, then the names of the subdirectory and then
one name of an entry that there is a rule for. -/
def Path.IsEntry (p : Path) (rules : RuleTable) (root q : Path) : Prop :=
  ∃ n, Name.Proper n ∧ (rules.forEntry? n).isSome ∧
    p.components = root.components ++ (q.names ++ [n]).map .name

/-- The event is about the directory of a subdirectory in the root: it makes that
directory or changes an entry in it that there is a rule for. -/
inductive Event.Confined (rules : RuleTable) (root q : Path) : Event → Prop
  | report (dryRun : Bool) (progress : Progress) : Confined rules root q (.report dryRun progress)
  | makeDirectories {p : Path} (place : p.components = root.components ++ q.names.map .name) :
      Confined rules root q (.makeDirectories p)
  | write {p : Path} (content : Bytes) (entry : p.IsEntry rules root q) :
      Confined rules root q (.write p content)
  | tag {call : TagCall} (accepted : Bool) (entry : call.path.IsEntry rules root q) :
      Confined rules root q (.tag call accepted)
  | delete {p : Path} (entry : p.IsEntry rules root q) : Confined rules root q (.delete p)

section Paths

variable {rules : RuleTable} {root q p : Path} {n : Name}

/-- The path of an entry, as a run joins it. -/
theorem Path.isEntry_child (hroot : root.isEmpty = false) (hq : q.Inner) (hn : Name.Proper n)
    (hrule : (rules.forEntry? n).isSome) : ((root.join q).child n).IsEntry rules root q := by
  refine ⟨n, hn, hrule, ?_⟩
  have hname : (⟨n⟩ : Path).names = [n] := by rw [names, written_ofName hn]; rfl
  rw [child, components_join (isEmpty_join hroot hq) (inner_ofName hn), components_join hroot hq,
    hname, List.map_append, List.append_assoc]

theorem Action.Within.only {a : Action} (hroot : root.isEmpty = false) (hq : q.Inner)
    (ha : a.Within rules (root.join q) fun _ => True) : a.Only (Event.Confined rules root q) := by
  cases ha with
  | convert source rule proper recognized _ =>
    have hentry := Path.isEntry_child hroot hq proper recognized
    exact ⟨fun content => .write content hentry, fun accepted => .tag accepted hentry⟩
  | delete proper recognized _ => exact .delete (Path.isEntry_child hroot hq proper recognized)
  | skip path reason => trivial

end Paths

/-! ## A pass and a run -/

section Runs

variable {layout : Layout} {mode : Mode} {d : Disk} {q : Path}

/-- **A pass** stays in the directory of its subdirectory. -/
theorem Run.tells_confined (hroot : (layout.destinationRoot mode.direction).isEmpty = false)
    (hq : q.Inner) :
    Tells mode.tagger Named
      (Event.Confined layout.rules (layout.destinationRoot mode.direction) q)
      (pass layout mode q) := by
  apply tells_pass (fun d e hd _ => hd.act mode.tagger e) .report
  · exact .makeDirectories (Path.components_join hroot hq)
  · intro d es hd hes e he
    obtain ⟨ns, rfl, hproper, -⟩ := names_of_entries hd.proper hes
    obtain ⟨n, hn, rfl⟩ := List.mem_map.mp he
    exact (within_sourceAction (hproper n hn) trivial).only hroot hq
  · intro d es plan hd hes a ha
    obtain ⟨ns, rfl, hproper, -⟩ := names_of_entries hd.proper hes
    obtain ⟨e, he, hact⟩ := List.mem_filterMap.mp ha
    obtain ⟨n, hn, rfl⟩ := List.mem_map.mp he
    exact (within_destinationAction (hproper n hn) (fun _ _ _ => trivial) hact).only hroot hq

/-- What an event is about is the directory of the subdirectory, which is made, or an entry
in it. -/
theorem Event.Confined.place_or_entry {rules : RuleTable} {root p : Path} {e : Event}
    (h : e.Confined rules root q) (hp : p ∈ e.target?) :
    (e = .makeDirectories p ∧ p.components = root.components ++ q.names.map .name) ∨
      p.IsEntry rules root q := by
  cases h with
  | report dryRun progress => cases hp
  | makeDirectories place =>
    cases hp
    exact .inl ⟨rfl, place⟩
  | write content entry =>
    cases hp
    exact .inr entry
  | tag accepted entry =>
    cases hp
    exact .inr entry
  | delete entry =>
    cases hp
    exact .inr entry

/-- What an event is about lies in the root by its components, and what is written, tagged
or deleted is not the directory of the subdirectory itself. -/
theorem Event.Confined.lexical {rules : RuleTable} {root p : Path} {e : Event}
    (h : e.Confined rules root q) (hroot : root.isEmpty = false) (hq : q.Inner)
    (hp : p ∈ e.target?) :
    root.components <+: p.components ∧ .up ∉ p.components.drop root.components.length ∧
      (e ≠ .makeDirectories p → p.components ≠ (root.join q).components) := by
  have hinside : ∀ ns : List Name, p.components = root.components ++ ns.map .name →
      root.components <+: p.components ∧ .up ∉ p.components.drop root.components.length := by
    intro ns hns
    rw [hns]
    exact ⟨List.prefix_append _ _, by simp⟩
  rcases h.place_or_entry hp with ⟨he, hplace⟩ | ⟨n, -, -, hentry⟩
  · obtain ⟨hbelow, hup⟩ := hinside _ hplace
    exact ⟨hbelow, hup, fun hne => absurd he hne⟩
  · obtain ⟨hbelow, hup⟩ := hinside _ hentry
    refine ⟨hbelow, hup, fun _ => ?_⟩
    rw [hentry, Path.components_join hroot hq]
    simp

/-- **A run stays in its destination.** Let the layout be accepted and let the names on the
disk be names that entries can have. Whatever else is on the disk, in either direction, dry
or not, whoever tags and however the run ends: each path at which it makes a directory has
the components of the destination root and then the names of a subdirectory, and each path
that it writes, tags or deletes has one more name, which there is a rule for. So by its
components no such path leaves the destination root, none has a `..` behind it, and none
that is written, tagged or deleted is the directory of the subdirectory itself. -/
theorem sync_confined (hcheck : layout.check = .ok ()) (hd : d.Named) :
    ∀ e ∈ ((Run.sync layout mode).run (Session.start d)).2.journal, ∃ q ∈ layout.subdirs,
      e.Confined layout.rules (layout.destinationRoot mode.direction) q ∧
      ∀ p ∈ e.target?,
        (layout.destinationRoot mode.direction).components <+: p.components ∧
        .up ∉ p.components.drop (layout.destinationRoot mode.direction).components.length ∧
        (e ≠ .makeDirectories p →
          p.components ≠ ((layout.destinationRoot mode.direction).join q).components) := by
  have hinner := Path.inner_of_check hcheck
  obtain ⟨-, hroot⟩ := Path.roots_of_check hcheck mode.direction
  have htells : Run.Tells mode.tagger Named (fun e => ∃ q ∈ layout.subdirs,
      e.Confined layout.rules (layout.destinationRoot mode.direction) q)
        (Run.sync layout mode) := by
    apply Run.Tells.forM fun d e hd _ => hd.act mode.tagger e
    intro q hq
    exact (Run.tells_confined hroot (hinner q hq)).mono fun e he => ⟨q, hq, he⟩
  obtain ⟨es, hled, hall⟩ := htells (Session.start d) hd
  intro e he
  rw [hled.journal] at he
  obtain ⟨q, hq, hconfined⟩ := hall e (by simpa [Session.start] using he)
  exact ⟨q, hq, hconfined, fun p hp => hconfined.lexical hroot (hinner q hq) hp⟩

end Runs

namespace Sample

/-- Roots and subdirectories in spellings that are accepted. -/
def winding : Layout where
  localRoot := Path.ofString "./local"
  guestRoot := Path.ofString "elsewhere/..//guest/"
  subdirs := [Path.ofString ".//lib/./", Path.ofString "."]
  rules := .standard

/-- The destination directory is a link to another one, with a stale file there. -/
def detour : Disk where
  start := []
  nodes := [([name "local"], .directory), ([name "guest"], .directory),
    ([name "elsewhere"], .directory), ([name "local", name "lib"], .directory),
    ([name "local", name "lib", name "a.c"], .file (Utf8.ofString "x\n") none),
    ([name "elsewhere", name "old.c"], .file (Utf8.ofString "y") none),
    ([name "guest", name "lib"], .link (Path.ofString "../elsewhere"))]

end Sample

/-- A push through a link: by its path the file that is deleted is an entry of the
subdirectory's directory. -/
theorem sync_confined_sample :
    Event.delete (Path.ofString "elsewhere/..//guest/.//lib/./old.c") ∈
        ((Run.sync Sample.winding Sample.push).run (Session.start Sample.detour)).2.journal ∧
      ∃ q ∈ Sample.winding.subdirs,
        (Path.ofString "elsewhere/..//guest/.//lib/./old.c").IsEntry .standard
          (Path.ofString "elsewhere/..//guest/") q := by
  have hcheck : Sample.winding.check = .ok () := by decide +kernel
  have hnamed : Sample.detour.Named := named_of_nodes (by simp [Sample.detour]) (by decide +kernel)
  have hdelete : Event.delete (Path.ofString "elsewhere/..//guest/.//lib/./old.c") ∈
      ((Run.sync Sample.winding Sample.push).run (Session.start Sample.detour)).2.journal := by
    decide +kernel
  obtain ⟨q, hq, hconfined, -⟩ := sync_confined hcheck hnamed _ hdelete
  cases hconfined with
  | delete entry => exact ⟨hdelete, q, hq, entry⟩

end GuestSync
