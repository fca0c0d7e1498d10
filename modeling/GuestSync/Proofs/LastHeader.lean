/-
# GuestSync.Proofs.LastHeader -- the last header of a kind decides

All headers of a kind have their tables in the same places, so of several headers of one kind
the tables of the last one are left. Nothing else is lost: on a disk without links a path leads
to a place that ends in the name in which the path ends, the names of the tables differ from
each other and from those of the headers, and so no table takes the place of a header or of
another table. A header therefore reads the same before, between and after the others, and what
its tables are to hold does not depend on when it is its turn.
-/
import GuestSync.Command.Extract
import GuestSync.Proofs.LinkTrails
import GuestSync.Proofs.PathMaking
import GuestSync.Proofs.TableWriting

namespace GuestSync

variable {directory p q : Path} {n k : Name} {content : Bytes}

/-! ## The name in which a path ends -/

namespace Path

/-- The steps of a path that ends in a name lead to a place that ends in it. -/
theorem goal_of_fileName (h : p.fileName? = some n) (l : Location) :
    ∃ m, Step.goal l p.steps = m ++ [n] := by
  unfold fileName? at h
  split at h
  · next k hlast =>
    obtain ⟨cs, hcs⟩ := List.getLast?_eq_some_iff.mp hlast
    obtain rfl := Option.some.inj h
    refine ⟨Step.goal l (cs.map Step.ofComponent), ?_⟩
    rw [Disk.goal_steps, ← goal_components, hcs, goal_concat_name]
  · simp at h

/-- A path with a name behind it ends in that name. -/
theorem fileName_join (p : Path) (h : Name.Proper n) : (p.join ⟨n⟩).fileName? = some n := by
  have hname : (⟨n⟩ : Path).components = [.name n] := by rw [components, written_ofName h]; rfl
  by_cases hp : p.isEmpty
  · have hjoin : p.join ⟨n⟩ = ⟨n⟩ := by simp [join, hp]
    rw [hjoin, fileName?, hname]
    rfl
  · rw [fileName?, components_join (by simpa using hp) (inner_ofName h), names, written_ofName h,
      List.getLast?_append_of_ne_nil _ (by simp)]
    rfl

end Path

namespace Disk.Linkless

variable {d e : Disk} {last : LastName} {m : Location}

/-- Where a walk arrives stands the name in which its path ends. -/
theorem getLast_of_locate (hd : d.Linkless) (hloc : d.locate last p.steps = .ok m)
    (hp : p.fileName? = some n) : m.getLast? = some n := by
  obtain ⟨l, hl⟩ := Path.goal_of_fileName hp d.start
  rw [← hd.goal_of_locate hloc, hl, List.getLast?_concat]

/-- No place of another name where a file is or may be is on the way to a file. -/
theorem not_mem_trail (hd : d.Linkless) (h : d.read p = .ok content) (hp : p.fileName? = some n)
    (hname : m.getLast? ≠ some n) (hm : d.node? m = none ∨ ∃ c t, d.node? m = some (.file c t)) :
    m ∉ d.trail p := by
  intro hmem
  obtain ⟨x, hx, hend | rfl | ⟨target, rfl⟩⟩ := trail_of_read h hmem
  · exact hname (hd.getLast_of_locate hend hp)
  · simp [hx] at hm
  · simp [hx] at hm

theorem write (hd : d.Linkless) (h : d.write q content = .ok e) : e.Linkless := by
  obtain ⟨m, t, -, -, hnew, -, hother⟩ := filled_of_write h
  intro l target hl
  by_cases hlm : l = m
  · simp [hlm, hnew] at hl
  · exact hd l target ((hother l hlm).symm.trans hl)

/-- Writing a file does not matter to a path that ends in another name, neither to a file
that is there nor to one that is not. -/
theorem read_write_iff (hd : d.Linkless) {c : Bytes} (hwrite : d.write q c = .ok e)
    (hp : p.fileName? = some n) (hq : q.fileName? = some k) (hne : n ≠ k) :
    e.read p = .ok content ↔ d.read p = .ok content := by
  have he := hd.write hwrite
  obtain ⟨m, t, hloc, hold, hnew, hstart, hother⟩ := filled_of_write hwrite
  have hname : m.getLast? ≠ some n := by
    rw [hd.getLast_of_locate hloc hq]
    exact fun h => hne (Option.some.inj h).symm
  constructor
  · intro h
    exact read_of_others h hstart.symm (fun l hl => (hother l hl).symm)
      (he.not_mem_trail h hp hname (.inr ⟨c, t, hnew⟩))
  · intro h
    exact read_of_others h hstart hother (hd.not_mem_trail h hp hname hold)

end Disk.Linkless

/-! ## The names of headers and tables -/

namespace Header

variable {kind kind' : Header} {t t' : Table}

/-- A path names one header at most. -/
theorem Names.unique (h : kind.Names p) (h' : kind'.Names p) : kind = kind' :=
  Except.ok.inj ((ofPath_eq_ok.mpr h).symm.trans (ofPath_eq_ok.mpr h'))

theorem proper_fileName (ht : t ∈ kind.tables) : Name.Proper (Utf8.ofString t.fileName) := by
  have hall : ∀ t ∈ kind.tables, Name.Proper (Utf8.ofString t.fileName) := by
    cases kind <;> decide
  exact hall t ht

/-- No header has the name of a table, in whatever case. -/
theorem Names.ne_fileName (h : kind.Names p) (hp : p.fileName? = some n) (ht : t ∈ kind'.tables) :
    n ≠ Utf8.ofString t.fileName := by
  have hall : ∀ t ∈ kind'.tables,
      (Utf8.ofString t.fileName).map Ascii.toLower ≠ Utf8.ofString kind.baseName := by
    cases kind <;> cases kind' <;> decide
  rintro rfl
  rw [Names, hp] at h
  exact hall t ht (Option.some.inj h)

/-- No two tables have the same name, whichever headers they are of. -/
theorem eq_of_fileName (ht : t ∈ kind.tables) (ht' : t' ∈ kind'.tables)
    (h : Utf8.ofString t.fileName = Utf8.ofString t'.fileName) : kind = kind' ∧ t = t' := by
  have hall : ∀ t ∈ kind.tables, ∀ t' ∈ kind'.tables,
      Utf8.ofString t.fileName = Utf8.ofString t'.fileName → kind = kind' ∧ t = t' := by
    cases kind <;> cases kind' <;> decide
  exact hall t ht t' ht' h

theorem fileName_place (ht : t ∈ kind.tables) (directory : Path) :
    (t.place directory).fileName? = some (Utf8.ofString t.fileName) :=
  Path.fileName_join directory (proper_fileName ht)

theorem nodup_tables (kind : Header) : kind.tables.Nodup := by
  cases kind <;> decide

end Header

/-! ## The tables of one header -/

namespace Tabulated

variable {kind : Header} {members : List Member} {ts : List Table} {t : Table} {d e : Disk}

theorem linkless (h : Tabulated directory members ts d e) (hd : d.Linkless) : e.Linkless := by
  induction h with
  | nil => exact hd
  | cons _ write _ ih => exact ih (hd.write write)

/-- Writing tables does not matter to a path that ends in none of their names. -/
theorem read_iff (h : Tabulated directory members ts d e) (hd : d.Linkless)
    (hts : ∀ t ∈ ts, t ∈ kind.tables) (hp : p.fileName? = some n)
    (hne : ∀ t ∈ ts, n ≠ Utf8.ofString t.fileName) :
    e.read p = .ok content ↔ d.read p = .ok content := by
  induction h with
  | nil => exact Iff.rfl
  | cons _ write _ ih =>
    rw [List.forall_mem_cons] at hts hne
    rw [ih (hd.write write) hts.2 hne.2]
    exact hd.read_write_iff write hp (Header.fileName_place hts.1 directory) hne.1

/-- In the end every table is in its place. -/
theorem read_place (h : Tabulated directory members ts d e) (hd : d.Linkless)
    (hts : ∀ t ∈ ts, t ∈ kind.tables) (hnodup : ts.Nodup) (ht : t ∈ ts) :
    ∃ rows, t.select members = .ok rows ∧
      e.read (t.place directory) = .ok (Table.octets rows) := by
  induction h with
  | nil => simp at ht
  | @cons t' _ rows _ _ _ select write rest ih =>
    rw [List.forall_mem_cons] at hts
    rw [List.nodup_cons] at hnodup
    rcases List.mem_cons.mp ht with rfl | ht
    · refine ⟨rows, select, ?_⟩
      -- The tables that follow have other names.
      rw [rest.read_iff (hd.write write) hts.2 (Header.fileName_place hts.1 directory)]
      · exact Disk.read_write write
      · intro t' ht' hname
        obtain ⟨-, rfl⟩ := Header.eq_of_fileName hts.1 (hts.2 t' ht') hname
        exact hnodup.1 ht'
    · exact ih (hd.write write) hts.2 hnodup.2 ht

end Tabulated

/-- The header in a path yields the text for a table. -/
def Disk.Yields (d : Disk) (header : Path) (t : Table) (text : Bytes) : Prop :=
  ∃ content members rows, d.read header = .ok content ∧ Member.listOf content = .ok members ∧
    t.select members = .ok rows ∧ text = Table.octets rows

namespace Disk.Yields

variable {d e : Disk} {header : Path} {t : Table} {text text' : Bytes}

theorem unique (h : d.Yields header t text) (h' : d.Yields header t text') : text = text' := by
  obtain ⟨content, members, rows, hread, hlist, hselect, rfl⟩ := h
  obtain ⟨content', members', rows', hread', hlist', hselect', rfl⟩ := h'
  obtain rfl : content = content' := Except.ok.inj (hread.symm.trans hread')
  obtain rfl : members = members' := Except.ok.inj (hlist.symm.trans hlist')
  obtain rfl : rows = rows' := Except.ok.inj (hselect.symm.trans hselect')
  rfl

/-- What a header yields depends on its content alone. -/
theorem congr (h : d.Yields header t text)
    (hread : ∀ content, d.read header = .ok content → e.read header = .ok content) :
    e.Yields header t text := by
  obtain ⟨content, members, rows, hcontent, hrest⟩ := h
  exact ⟨content, members, rows, hread content hcontent, hrest⟩

end Disk.Yields

/-! ## Headers one after another -/

/-- The disk `e` is what the work on some headers, each of them got through, makes of `d`. -/
inductive Extractions (directory : Path) : List Path → Disk → Disk → Prop
  | nil (d : Disk) : Extractions directory [] d d
  | cons {header : Path} {headers : List Path} {kind : Header} {content : Bytes}
      {members : List Member} {d e f : Disk} (names : kind.Names header)
      (read : d.read header = .ok content) (list : Member.listOf content = .ok members)
      (tables : Tabulated directory members kind.tables d e)
      (rest : Extractions directory headers e f) : Extractions directory (header :: headers) d f

namespace Extractions

variable {header : Path} {headers before after : List Path} {kind : Header} {d f : Disk}

theorem linkless (h : Extractions directory headers d f) (hd : d.Linkless) : f.Linkless := by
  induction h with
  | nil => exact hd
  | cons _ _ _ tables _ ih => exact ih (tables.linkless hd)

/-- The work does not matter to a path that does not end in the name of a table of one of the
headers. -/
theorem read_iff (h : Extractions directory headers d f) (hd : d.Linkless)
    (hp : p.fileName? = some n)
    (hne : ∀ header ∈ headers, ∀ kind : Header, kind.Names header →
      ∀ t ∈ kind.tables, n ≠ Utf8.ofString t.fileName) :
    f.read p = .ok content ↔ d.read p = .ok content := by
  induction h with
  | nil => exact Iff.rfl
  | cons names _ _ tables _ ih =>
    rw [List.forall_mem_cons] at hne
    rw [ih (tables.linkless hd) hne.2]
    exact tables.read_iff hd (fun _ ht => ht) hp (hne.1 _ names)

/-- A header is read as before. -/
theorem read_header_iff (h : Extractions directory headers d f) (hd : d.Linkless)
    (hnames : kind.Names p) : f.read p = .ok content ↔ d.read p = .ok content := by
  obtain ⟨n, hn, -⟩ := Option.map_eq_some_iff.mp hnames
  exact h.read_iff hd hn fun _ _ _ _ _ ht => hnames.ne_fileName hn ht

/-- A table of a kind of which there is no header is read as before. -/
theorem read_table_iff (h : Extractions directory headers d f) (hd : d.Linkless) {t : Table}
    (ht : t ∈ kind.tables) (hnone : ∀ header ∈ headers, ¬ kind.Names header) :
    f.read (t.place directory) = .ok content ↔ d.read (t.place directory) = .ok content := by
  apply h.read_iff hd (Header.fileName_place ht directory)
  intro header hheader kind' hnames t' ht' hname
  obtain ⟨rfl, -⟩ := Header.eq_of_fileName ht ht' hname
  exact hnone header hheader hnames

theorem split (h : Extractions directory (before ++ header :: after) d f) :
    ∃ d', Extractions directory before d d' ∧ Extractions directory (header :: after) d' f := by
  induction before generalizing d with
  | nil => exact ⟨d, .nil d, h⟩
  | cons first before ih =>
    cases h with
    | cons names read list tables rest =>
      obtain ⟨d', hbefore, hafter⟩ := ih rest
      exact ⟨d', .cons names read list tables hbefore, hafter⟩

/-- A header yields its tables at any time, and where no header of its kind follows they are
left. -/
theorem yields (h : Extractions directory (before ++ header :: after) d f) (hd : d.Linkless) :
    ∃ kind : Header, kind.Names header ∧ ∀ t ∈ kind.tables, ∃ text,
      d.Yields header t text ∧ f.Yields header t text ∧
        ((∀ later ∈ after, ¬ kind.Names later) → f.read (t.place directory) = .ok text) := by
  obtain ⟨d', hbefore, hafter⟩ := h.split
  have hd' := hbefore.linkless hd
  have hlater : ∀ {kind : Header} {content : Bytes}, kind.Names header →
      (f.read header = .ok content ↔ d'.read header = .ok content) :=
    fun hnames => hafter.read_header_iff hd' hnames
  cases hafter with
  | @cons _ _ kind content members _ e _ names read list tables rest =>
    refine ⟨kind, names, ?_⟩
    intro t ht
    obtain ⟨rows, hselect, hplace⟩ :=
      tables.read_place hd' (fun _ ht => ht) kind.nodup_tables ht
    have hyields : d'.Yields header t (Table.octets rows) :=
      ⟨content, members, rows, read, list, hselect, rfl⟩
    refine ⟨Table.octets rows, ?_, ?_, ?_⟩
    · exact hyields.congr fun c hc => (hbefore.read_header_iff hd names).mp hc
    · exact hyields.congr fun c hc => (hlater names).mpr hc
    · intro hnone
      rwa [rest.read_table_iff (tables.linkless hd') ht hnone]

end Extractions

/-- The work on a header that got through has written all of its tables. -/
theorem Run.extract_of_run_ok {header : Path} {paths : List Path} {s s' : Session}
    (h : (extract directory header).run s = (.ok paths, s')) :
    ∃ (kind : Header) (content : Bytes) (members : List Member), kind.Names header ∧
      s.disk.read header = .ok content ∧ Member.listOf content = .ok members ∧
      Tabulated directory members kind.tables s.disk s'.disk := by
  unfold extract at h
  obtain ⟨kind, s₁, hkind, hwork⟩ := run_bind_eq_ok.mp h
  obtain ⟨hname, rfl⟩ := Prod.mk.inj ((run_lift _ s).symm.trans hkind)
  obtain ⟨content, s₂, hread, hfound⟩ := run_bind_eq_ok.mp hwork
  obtain ⟨hcontent, rfl⟩ := read_of_run_ok hread
  obtain ⟨members, s₃, hmembers, hloop⟩ := run_bind_eq_ok.mp hfound
  obtain ⟨hlist, rfl⟩ := Prod.mk.inj ((run_lift _ _).symm.trans hmembers)
  have hends := extractTables_ends directory members kind.tables s₂
  rw [hloop] at hends
  cases hends with
  | finished left =>
    exact ⟨kind, content, members, Header.ofPath_eq_ok.mp hname, hcontent, hlist, left.disk⟩

namespace Command

/-- The headers that a command line has given. -/
def Given.headers (given : Given) : List Path := given.operands.map (⟨·⟩)

/-- The directory for the tables: the one that a command line has given, or the current one. -/
def Given.tableDirectory (given : Given) : Path :=
  given.outputDirectory.getD (Path.ofString ".")

theorem extract_of_read {arguments : List Bytes} {given : Given} (d : Disk)
    (h : extractGrammar.read arguments = .ok given) :
    extract arguments d = extractAll given.tableDirectory given.headers (.start d) := by
  unfold extract
  rw [h]
  rfl

/-- Where the work on some headers succeeds it got through each of them. -/
theorem extractAll_of_success {headers : List Path} {s : Session}
    (h : (extractAll directory headers s).code = 0) :
    Extractions directory headers s.disk (extractAll directory headers s).session.disk := by
  induction headers generalizing s with
  | nil => exact .nil s.disk
  | cons header headers ih =>
    unfold extractAll at h ⊢
    rcases hrun : (Run.extract directory header).run s with ⟨f | paths, s'⟩
    · rw [hrun] at h
      simp [Finish.failure] at h
    · rw [hrun] at h
      obtain ⟨kind, content, members, hnames, hread, hlist, htables⟩ := Run.extract_of_run_ok hrun
      exact .cons hnames hread hlist htables (ih h)

end Command

/-! ## The last header of its kind -/

/-- The path is the last of some headers that is of the kind. -/
def Header.LastOf (kind : Header) (headers : List Path) (last : Path) : Prop :=
  ∃ before after, headers = before ++ last :: after ∧ kind.Names last ∧
    ∀ later ∈ after, ¬ kind.Names later

theorem Header.exists_lastOf {kind : Header} {headers : List Path} {header : Path}
    (h : header ∈ headers) (hnames : kind.Names header) : ∃ last, kind.LastOf headers last := by
  induction headers generalizing header with
  | nil => simp at h
  | cons first headers ih =>
    by_cases hlater : ∃ later ∈ headers, kind.Names later
    · obtain ⟨later, hmem, hkind⟩ := hlater
      obtain ⟨last, before, after, rfl, hlast⟩ := ih hmem hkind
      exact ⟨last, first :: before, after, rfl, hlast⟩
    · -- No header of the kind follows, so the first one is it.
      rcases List.mem_cons.mp h with rfl | hmem
      · exact ⟨header, [], headers, rfl, hnames, fun later hl hk => hlater ⟨later, hl, hk⟩⟩
      · exact absurd ⟨header, hmem, hnames⟩ hlater

namespace Command

/-- **The last header of a kind decides.** On a disk without links let the command that extracts
constants succeed. Then every header it was given is of a known kind, and for every table of the
kind it yields a text, at the end as at the start. The place of the table holds the text of the
last header of that kind that was given; so it holds that of the header itself exactly if the
last one yields the same. -/
theorem extract_keeps_last {arguments : List Bytes} {given : Given} {d : Disk} (hd : d.Linkless)
    (hread : extractGrammar.read arguments = .ok given)
    (hcode : (extract arguments d).code = 0) :
    ∀ header ∈ given.headers, ∃ (kind : Header) (last : Path),
      kind.Names header ∧ kind.LastOf given.headers last ∧
      ∀ t ∈ kind.tables, ∃ text latest,
        d.Yields header t text ∧ (extract arguments d).session.disk.Yields header t text ∧
        d.Yields last t latest ∧
        (extract arguments d).session.disk.read (t.place given.tableDirectory) = .ok latest ∧
        ((extract arguments d).session.disk.read (t.place given.tableDirectory) = .ok text ↔
          d.Yields last t text) := by
  rw [extract_of_read d hread] at hcode ⊢
  have hwork := extractAll_of_success hcode
  generalize (extractAll given.tableDirectory given.headers (.start d)).session.disk = e at hwork ⊢
  intro header hheader
  obtain ⟨before, after, hsplit⟩ := List.append_of_mem hheader
  obtain ⟨kind, hnames, htables⟩ := (hsplit ▸ hwork).yields hd
  obtain ⟨last, before', after', hsplit', hlast, hnone⟩ := Header.exists_lastOf hheader hnames
  obtain ⟨kind', hnames', hlatest⟩ := (hsplit' ▸ hwork).yields hd
  obtain rfl := hlast.unique hnames'
  refine ⟨kind, last, hnames, ⟨before', after', hsplit', hlast, hnone⟩, ?_⟩
  intro t ht
  obtain ⟨text, hyields, hstill, -⟩ := htables t ht
  obtain ⟨latest, hyields', -, hplace⟩ := hlatest t ht
  refine ⟨text, latest, hyields, hstill, hyields', hplace hnone, ?_⟩
  rw [hplace hnone, Except.ok.injEq]
  constructor
  · rintro rfl
    exact hyields'
  · exact hyields'.unique

end Command

namespace Sample

/-- Two headers of one kind, each with one member. -/
def headers : Disk where
  start := []
  nodes := [([name "a"], .directory), ([name "b"], .directory),
    ([name "a", name "TextCommon.h"], .file (Utf8.ofString "kTextEncodingA = 0\n") none),
    ([name "b", name "TextCommon.h"], .file (Utf8.ofString "kTextEncodingB = 1\n") none)]

/-- A command line with both of them. -/
def bothHeaders : List Bytes := [name "a/TextCommon.h", name "b/TextCommon.h"]

theorem plain_headers : headers.Plain := Disk.IsPlain.plain (by decide +kernel)

end Sample

namespace Command

/-- The header in `a` is not the last one of its kind. -/
theorem extract_keeps_last_sample :
    (extract Sample.bothHeaders Sample.headers).code = 0 ∧
      ∃ (kind : Header) (last : Path), kind.Names (Path.ofString "a/TextCommon.h") ∧
        kind.LastOf [Path.ofString "a/TextCommon.h", Path.ofString "b/TextCommon.h"] last ∧
        ∀ t ∈ kind.tables, ∃ text latest,
          Sample.headers.Yields (Path.ofString "a/TextCommon.h") t text ∧
          (extract Sample.bothHeaders Sample.headers).session.disk.Yields
            (Path.ofString "a/TextCommon.h") t text ∧
          Sample.headers.Yields last t latest ∧
          (extract Sample.bothHeaders Sample.headers).session.disk.read
            (t.place (Path.ofString ".")) = .ok latest ∧
          ((extract Sample.bothHeaders Sample.headers).session.disk.read
            (t.place (Path.ofString ".")) = .ok text ↔ Sample.headers.Yields last t text) := by
  have hread : extractGrammar.read Sample.bothHeaders = .ok ⟨[], none, Sample.bothHeaders⟩ := by
    decide +kernel
  have hcode : (extract Sample.bothHeaders Sample.headers).code = 0 := by decide +kernel
  exact ⟨hcode, extract_keeps_last Sample.plain_headers.linkless hread hcode
    (Path.ofString "a/TextCommon.h") (List.mem_cons_self ..)⟩

/-- Of two headers of one kind the table of the first one is lost, although the command
succeeds. -/
theorem earlier_table_lost :
    ¬ ∀ (arguments : List Bytes) (given : Given) (d : Disk), d.Plain →
      extractGrammar.read arguments = .ok given → (extract arguments d).code = 0 →
      ∀ header ∈ given.headers, ∀ kind : Header, kind.Names header → ∀ t ∈ kind.tables,
        ∃ text, d.Yields header t text ∧
          (extract arguments d).session.disk.read (t.place given.tableDirectory) = .ok text := by
  intro hkept
  obtain ⟨text, ⟨content, members, rows, hcontent, hlist, hselect, rfl⟩, hplace⟩ :=
    hkept Sample.bothHeaders ⟨[], none, Sample.bothHeaders⟩ Sample.headers Sample.plain_headers
      (by decide +kernel) (by decide +kernel) (Path.ofString "a/TextCommon.h") (by decide +kernel)
      .textCommon (by unfold Header.Names; decide +kernel) ⟨"encoding.csv", "kTextEncoding", none⟩
      (by decide)
  have hfirst : Sample.headers.read (Path.ofString "a/TextCommon.h") =
      .ok (Utf8.ofString "kTextEncodingA = 0\n") := by decide +kernel
  obtain rfl := Except.ok.inj (hfirst.symm.trans hcontent)
  have hmember : Member.listOf (Utf8.ofString "kTextEncodingA = 0\n") =
      .ok [⟨"kTextEncodingA", 0⟩] := by decide +kernel
  obtain rfl := Except.ok.inj (hmember.symm.trans hlist)
  obtain rfl : [⟨"kTextEncodingA", 0⟩] = rows := Except.ok.inj hselect
  have hsecond : (extract Sample.bothHeaders Sample.headers).session.disk.read
      (Table.place (Path.ofString ".") ⟨"encoding.csv", "kTextEncoding", none⟩) =
        .ok (Table.octets [⟨"kTextEncodingB", 1⟩]) := by decide +kernel
  exact absurd (Except.ok.inj (hsecond.symm.trans hplace)) (by decide +kernel)

end Command

end GuestSync
