/-
# GuestSync.Proofs.TableWriting -- whole tables, in order, up to the first failure

The work on a header looks at its name, reads it, finds its members and only then begins to
write, so where one of the first three fails nothing has happened. After that one table is like
another: it is selected, announced and written, or the work ends there. `Tabulated` tells what
becomes of a disk when tables are written whole and one after another, and `Left` what a session
has come to with some tables written and some announced. The work ends with a beginning of the
tables written; the next one, if there is one, was announced exactly if it could be selected.

Nothing is assumed about the disk: the directory may be missing, and in the place of a table may
stand a file, a directory, a pipe or a link, even one that leads to the header itself.
-/
import GuestSync.Header.Extract
import GuestSync.Proofs.MemberValues
import GuestSync.Proofs.RunRules

namespace GuestSync

namespace Header

/-- The last name of the path is that of the header, in any case. -/
def Names (kind : Header) (p : Path) : Prop :=
  p.fileName?.map (·.map Ascii.toLower) = some (Utf8.ofString kind.baseName)

theorem ofPath_eq_ok {p : Path} {kind : Header} : ofPath p = .ok kind ↔ kind.Names p := by
  have hne : Utf8.ofString (baseName .script) ≠ Utf8.ofString (baseName .textCommon) := by decide
  unfold ofPath Names
  dsimp only
  generalize p.fileName?.map (·.map Ascii.toLower) = name
  cases kind <;> split_ifs <;> simp_all

theorem ofPath_eq_error {p : Path} {f : Failure} :
    ofPath p = .error f ↔ (∀ kind : Header, ¬ kind.Names p) ∧ f = .unknownHeader p := by
  simp only [← ofPath_eq_ok]
  unfold ofPath
  dsimp only
  split_ifs <;> simp [eq_comm]

end Header

namespace Table

/-- The path of a table in a directory. -/
def place (directory : Path) (t : Table) : Path := directory.join (Path.ofString t.fileName)

/-- The octets of a table with some rows. -/
def octets (rows : List Member) : Bytes := Utf8.ofString (Csv.render rows)

/-- The line that announces a table. -/
def announcement (directory : Path) (t : Table) : String :=
  "Writing " ++ (t.place directory).display

/-- What the journal tells of a table that could be selected: it was announced, and then it was
set out to write it. -/
def attempt (directory : Path) (members : List Member) (t : Table) : List Event :=
  match t.select members with
  | .ok rows => [.announce (t.place directory), .write (t.place directory) (octets rows)]
  | .error _ => []

end Table

/-! ## Tables written one after another -/

/-- The disk `e` is what writing some tables of some members into a directory makes of `d`, each
table whole and one after another. -/
inductive Tabulated (directory : Path) (members : List Member) : List Table → Disk → Disk → Prop
  | nil (d : Disk) : Tabulated directory members [] d d
  | cons {t : Table} {ts : List Table} {rows : List Member} {d e f : Disk}
      (select : t.select members = .ok rows)
      (write : d.write (t.place directory) (Table.octets rows) = .ok e)
      (rest : Tabulated directory members ts e f) : Tabulated directory members (t :: ts) d f

/-- The session `s'` has come of `s` with some tables written and some announced. -/
structure Session.Left (directory : Path) (members : List Member) (written announced : List Table)
    (s s' : Session) : Prop where
  disk : Tabulated directory members written s.disk s'.disk
  journal : s'.journal = s.journal ++ announced.flatMap (Table.attempt directory members)
  errorLines : s'.errorLines = s.errorLines ++ announced.map (Table.announcement directory)
  tally : s'.tally = s.tally

namespace Run

/-- How the work on some tables ends: with all of them written, or at the first one that cannot
be selected or cannot be written. -/
inductive TablesEnd (directory : Path) (members : List Member) (ts : List Table) (s : Session) :
    Except Failure (List Path) → Session → Prop
  | finished {s' : Session} (left : s.Left directory members ts ts s') :
      TablesEnd directory members ts s (.ok (ts.map (Table.place directory))) s'
  | unselected {s' : Session} {done rest : List Table} {t : Table} {f : Failure}
      (tables : ts = done ++ t :: rest) (left : s.Left directory members done done s')
      (select : t.select members = .error f) : TablesEnd directory members ts s (.error f) s'
  | unwritten {s' : Session} {done rest : List Table} {t : Table} {rows : List Member}
      {e : OsError} (tables : ts = done ++ t :: rest)
      (left : s.Left directory members done (done ++ [t]) s')
      (select : t.select members = .ok rows)
      (write : s'.disk.write (t.place directory) (Table.octets rows) = .error e) :
      TablesEnd directory members ts s
        (.error (.operation .write (t.place directory) (.system e))) s'

/-- How the work on a header ends. -/
inductive Extracted (directory header : Path) (s : Session) :
    Except Failure (List Path) → Session → Prop
  | unknown (names : ∀ kind : Header, ¬ kind.Names header) :
      Extracted directory header s (.error (.unknownHeader header)) s
  | unreadable {kind : Header} {e : OsError} (names : kind.Names header)
      (read : s.disk.read header = .error e) :
      Extracted directory header s (.error (.operation .read header (.system e))) s
  | badLiteral {kind : Header} {content : Bytes} {name literal : String}
      (names : kind.Names header) (read : s.disk.read header = .ok content)
      (list : Member.listOf content = .error (.badLiteral name literal)) :
      Extracted directory header s (.error (.badLiteral name literal)) s
  | tables {kind : Header} {content : Bytes} {members : List Member}
      {r : Except Failure (List Path)} {s' : Session} (names : kind.Names header)
      (read : s.disk.read header = .ok content) (list : Member.listOf content = .ok members)
      (ends : TablesEnd directory members kind.tables s r s') :
      Extracted directory header s r s'

/-! ## One table -/

variable {directory : Path} {members : List Member} {s : Session}

theorem run_lift {α : Type} (a : Except Failure α) (s : Session) : (lift a).run s = (a, s) := by
  cases a <;> rfl

theorem run_writeTable (path : Path) (rows : List Member) (s : Session) :
    (writeTable path rows).run s =
      match s.disk.write path (Table.octets rows) with
      | .ok d =>
        (.ok (), ⟨d, s.tally, s.journal ++ [.announce path, .write path (Table.octets rows)]⟩)
      | .error e => (.error (.operation .write path (.system e)),
          ⟨s.disk, s.tally, s.journal ++ [.announce path, .write path (Table.octets rows)]⟩) := by
  unfold writeTable
  rw [run_bind, run_note]
  dsimp only
  rw [run_write, List.append_assoc]
  rfl

/-- A table that cannot be selected leaves the session as it is. -/
theorem run_extractTable_error (directory : Path) {t : Table} {f : Failure} (s : Session)
    (h : t.select members = .error f) :
    (extractTable directory members t).run s = (.error f, s) := by
  unfold extractTable
  exact run_bind_error (by rw [run_lift, h])

/-- A table that can be selected is announced and then written. -/
theorem run_extractTable_ok (directory : Path) {t : Table} {rows : List Member} (s : Session)
    (h : t.select members = .ok rows) :
    (extractTable directory members t).run s =
      match s.disk.write (t.place directory) (Table.octets rows) with
      | .ok d => (.ok (t.place directory),
          ⟨d, s.tally, s.journal ++ t.attempt directory members⟩)
      | .error e => (.error (.operation .write (t.place directory) (.system e)),
          ⟨s.disk, s.tally, s.journal ++ t.attempt directory members⟩) := by
  have hattempt : t.attempt directory members =
      [.announce (t.place directory), .write (t.place directory) (Table.octets rows)] := by
    rw [Table.attempt, h]
  have hwrite := run_writeTable (t.place directory) rows s
  unfold extractTable
  rw [run_bind_ok (by rw [run_lift, h]), hattempt]
  cases hdisk : s.disk.write (t.place directory) (Table.octets rows) with
  | ok d =>
    rw [hdisk] at hwrite
    exact run_bind_ok hwrite
  | error e =>
    rw [hdisk] at hwrite
    exact run_bind_error hwrite

end Run

/-! ## All tables -/

namespace Session

variable {directory : Path} {members : List Member} {s s' : Session}

/-- What is said about a table is that it is going to be written. -/
theorem errorLines_attempt {t : Table} {rows : List Member} (h : t.select members = .ok rows)
    (s : Session) (disk : Disk) :
    errorLines ⟨disk, s.tally, s.journal ++ t.attempt directory members⟩ =
      s.errorLines ++ [t.announcement directory] := by
  unfold errorLines Table.attempt
  rw [h, List.filterMap_append]
  rfl

namespace Left

/-- Nothing has been done yet. -/
theorem refl (s : Session) : s.Left directory members [] [] s where
  disk := .nil s.disk
  journal := (List.append_nil _).symm
  errorLines := (List.append_nil _).symm
  tally := rfl

/-- The next table has been announced, but not written. -/
theorem announced {t : Table} {rows : List Member} (h : t.select members = .ok rows) :
    s.Left directory members [] [t]
      ⟨s.disk, s.tally, s.journal ++ t.attempt directory members⟩ where
  disk := .nil s.disk
  journal := by rw [List.flatMap_singleton]
  errorLines := errorLines_attempt h s s.disk
  tally := rfl

/-- One table was written before what was done from there on. -/
theorem cons {t : Table} {rows : List Member} {written announced : List Table} {d : Disk}
    (select : t.select members = .ok rows)
    (write : s.disk.write (t.place directory) (Table.octets rows) = .ok d)
    (h : Left directory members written announced
      ⟨d, s.tally, s.journal ++ t.attempt directory members⟩ s') :
    s.Left directory members (t :: written) (t :: announced) s' where
  disk := .cons select write h.disk
  journal := by rw [h.journal, List.flatMap_cons, List.append_assoc]
  errorLines := by
    rw [h.errorLines, errorLines_attempt select s, List.map_cons, List.append_assoc]
    rfl
  tally := h.tally

end Left

end Session

namespace Run

variable {directory : Path} {members : List Member} {s s' : Session}

/-- One table was written before the work on the rest. -/
theorem TablesEnd.cons {t : Table} {ts : List Table} {rows : List Member} {d : Disk}
    {r : Except Failure (List Path)} (select : t.select members = .ok rows)
    (write : s.disk.write (t.place directory) (Table.octets rows) = .ok d)
    (h : TablesEnd directory members ts
      ⟨d, s.tally, s.journal ++ t.attempt directory members⟩ r s') :
    TablesEnd directory members (t :: ts) s (r.map (t.place directory :: ·)) s' := by
  cases h with
  | finished left => exact .finished (left.cons select write)
  | unselected tables left hselect =>
    exact .unselected (congrArg (t :: ·) tables) (left.cons select write) hselect
  | unwritten tables left hselect hwrite =>
    exact .unwritten (congrArg (t :: ·) tables) (left.cons select write) hselect hwrite

/-- The work on a list of tables, one after another. -/
theorem extractTables_ends (directory : Path) (members : List Member) (ts : List Table)
    (s : Session) :
    TablesEnd directory members ts s ((ts.mapM (extractTable directory members)).run s).1
      ((ts.mapM (extractTable directory members)).run s).2 := by
  induction ts generalizing s with
  | nil => exact .finished (.refl s)
  | cons t ts ih =>
    rw [List.mapM_cons]
    cases hselect : t.select members with
    | error f =>
      rw [run_bind_error (run_extractTable_error directory s hselect)]
      exact .unselected rfl (.refl s) hselect
    | ok rows =>
      have htable := run_extractTable_ok directory s hselect
      cases hwrite : s.disk.write (t.place directory) (Table.octets rows) with
      | error e =>
        rw [hwrite] at htable
        rw [run_bind_error htable]
        exact .unwritten rfl (.announced hselect) hselect hwrite
      | ok d =>
        rw [hwrite] at htable
        rw [run_bind_ok htable]
        have hrest := (ih ⟨d, s.tally, s.journal ++ t.attempt directory members⟩).cons hselect
          hwrite
        rw [run_bind]
        rcases hrun : (ts.mapM (extractTable directory members)).run
          ⟨d, s.tally, s.journal ++ t.attempt directory members⟩ with ⟨f | paths, s'⟩
        · rw [hrun] at hrest
          exact hrest
        · rw [hrun] at hrest
          exact hrest

/-! ## A header -/

/-- **A header yields a beginning of its tables, each of them whole.** In any session, for any
header and any directory, the work either ends with the session as it was, because the name of
the header is not known, whatever the disk holds, or the header cannot be read or has a literal
that is too large; or the disk is what it was with the first tables of the header written to
their places in the directory, whole and in order, out of the members that the header had before
anything was written. The work then got through all tables, with all places for its result, or
it ended with the failure of the first table that could not be selected or written. A table that
could not be selected was not announced, nothing was set out to be written for it, and for the
tables before it that is all that the journal holds. -/
theorem extract_ends (directory header : Path) (s : Session) :
    Extracted directory header s ((extract directory header).run s).1
      ((extract directory header).run s).2 := by
  unfold extract
  cases hname : Header.ofPath header with
  | error f =>
    obtain ⟨hnames, rfl⟩ := Header.ofPath_eq_error.mp hname
    rw [run_bind_error (run_lift _ s)]
    exact .unknown hnames
  | ok kind =>
    have hnames := Header.ofPath_eq_ok.mp hname
    have hread := run_read s header
    rw [run_bind_ok (run_lift _ s)]
    cases hcontent : s.disk.read header with
    | error e =>
      rw [hcontent] at hread
      rw [run_bind_error hread]
      exact .unreadable hnames hcontent
    | ok content =>
      rw [hcontent] at hread
      rw [run_bind_ok hread]
      cases hlist : Member.listOf content with
      | error f =>
        obtain ⟨-, name, literal, -, -, -, -, -, -, rfl⟩ := Member.listOf_eq_error.mp hlist
        rw [run_bind_error (run_lift _ s)]
        exact .badLiteral hnames hcontent hlist
      | ok members =>
        rw [run_bind_ok (run_lift _ s)]
        exact .tables hnames hcontent hlist (extractTables_ends directory members kind.tables s)

end Run

end GuestSync
