import EventSchema.Proofs.NoDocument
import EventSchema.Proofs.Renderings
import EventSchema.Proofs.Replacement
import EventSchema.Proofs.Searches

/-!
# Compiling again

A compilation adds its own output to the disk that it has read. If the pattern does not mean this
file, a second compilation reads what the first has read, and there is nothing left for it to do.

* `Settings.readsOutput` — the output is one of the documents that the pattern means;
* `source_of_gains`, `library_includes_of_gains` — the documents are read as before;
* `render_of_gains` — so the module is rendered as before;
* `compile_then_check` — after a compilation the output is up to date, and another compilation
  changes nothing on the disk;
* `render_ne_ok_of_readsOutput` — where the pattern means the output, and that has the name of a
  JSON document, nothing can be rendered any more;
* `compile_then_check_fails` — so a compilation whose output is one of its documents is not up to
  date.
-/

namespace EventSchema

open Library TypeScript

/-- The output of some settings is itself one of the documents that their pattern means. -/
def Settings.readsOutput (settings : Settings) (disk : Disk) : Bool :=
  match disk.locate settings.output, enumerate Host.reliable disk settings.pattern with
  | .ok place, .ok documents => documents.contains (DocumentPath.ofSegments place)
  | _, _ => false

variable {host host' : Host} {disk disk' : Disk} {place : Location} {pattern : String}
  {options : ModuleOptions} {rendered : Rendered} {p : Glob.PathPattern} {path : DocumentPath}
  {settings : Settings}

/-! ## Reading again -/

/-- A text is what the bytes of a file spell. -/
theorem readText_eq_ok_iff {file text : String} : disk.readText file = .ok text ↔
    ∃ content, disk.read file = .ok content ∧ Text.Utf8.decode? content = some text := by
  rw [Disk.readText]
  cases disk.read file with
  | error e => simp
  | ok content => cases hdecode : Text.Utf8.decode? content <;> simp [hdecode]

/-- A document that was read is read with the same text, unless it is at the place of the file. -/
theorem source_of_gains (h : disk.Gains disk' place) (hpath : path.segments ≠ place)
    (hgrants : ∀ step, host'.refuses step = none) {text : String}
    (htext : disk.source host path = .ok text) : disk'.source host' path = .ok text := by
  obtain ⟨content, hread, hdecode⟩ :=
    readText_eq_ok_iff.1 (mapError_eq_ok_iff.1 (access_eq_ok htext))
  have hread' : disk'.read path.text = .ok content := by
    refine h.same.read hread fun l hl => h.elsewhere l ?_
    rw [Disk.eq_segments_of_locate hl]
    exact hpath
  have htext' := readText_eq_ok_iff.2 ⟨content, hread', hdecode⟩
  simp only [Disk.source, Host.access, hgrants, htext', Except.mapError]

/-- The documents of a pattern are there as before, if the file is none of them. -/
theorem library_includes_of_gains (h : disk.Gains disk' place)
    (hgrants : ∀ step, host'.refuses step = none)
    (hout : DocumentPath.ofSegments place ∉ disk'.documents p) :
    (disk'.library host' p).Includes (disk.library host p) := by
  have hdocuments := h.documents hout
  refine ⟨fun q hq => ?_, fun q hq text htext => source_of_gains h ?_ hgrants htext⟩
  · rw [Disk.library, ofPaths, hdocuments]
    exact hq
  · rintro rfl
    rw [DocumentPath.ofSegments_segments, hdocuments] at hout
    exact hout (mem_sortOnce.1 hq)

/-- The module is rendered as before, if the file is none of its documents. -/
theorem render_of_gains (h : disk.Gains disk' place) (hgrants : ∀ step, host'.refuses step = none)
    (hout : ∀ p, Glob.parse pattern = .ok p →
      DocumentPath.ofSegments place ∉ disk'.documents p)
    (hrender : render host disk pattern options = .ok rendered) :
    render host' disk' pattern options = .ok rendered :=
  render_of_includes (hgrants _) (fun p hp => h.documents (hout p hp))
    (fun p hp => library_includes_of_gains h hgrants (hout p hp)) hrender

/-- Whether the output is one of the documents of the pattern. -/
theorem readsOutput_iff (hplace : disk.locate settings.output = .ok place)
    (hp : Glob.parse settings.pattern = .ok p) :
    settings.readsOutput disk = true ↔ DocumentPath.ofSegments place ∈ disk.documents p := by
  simp [Settings.readsOutput, hplace, enumerate, hp, Host.access, Host.reliable]

/-! ## Compiling again -/

/-- An output that holds the module is up to date. -/
theorem check_of_read (hgrants : ∀ step, host.refuses step = none)
    (hrender : render host disk settings.pattern settings.options = .ok rendered)
    (hread : disk.read settings.output = .ok (Text.Utf8.encode rendered.module)) :
    check host disk settings = .ok .upToDate := by
  simp [check, hrender, bind, Except.bind, Host.access, hgrants, hread, pure, Except.pure]

/-- What was compiled is up to date. Once a compilation has succeeded, and unless its pattern means
its output, a comparison by whatever machine says that the output is up to date; and to compile
again gives the same report and leaves the disk, and so the output, byte by byte as it is. The first
machine may refuse what it likes, as long as the compilation succeeds. The working directory is one
that a system gives, without empty names and dots in its path. -/
theorem compile_then_check (host : Host) (disk after : Disk) (settings : Settings)
    (report : Report) (hworking : ∀ s ∈ disk.working, Path.IsOrdinary s)
    (hcompile : compile host disk settings = (.ok report, after))
    (hapart : settings.readsOutput after = false) (workers : Nat) (schedule : List Nat) :
    let again : Host := ⟨fun _ => none, workers, schedule⟩
    check again after settings = .ok .upToDate ∧
      compile again after settings = (.ok report, after) := by
  intro again
  have hgrants : ∀ step, again.refuses step = none := fun _ => rfl
  obtain ⟨rendered, place, hrender, htakes, rfl, rfl⟩ := compile_eq_ok hcompile
  generalize hcontent : Text.Utf8.encode rendered.module = content at hapart ⊢
  have hgains : disk.Gains (disk.set place (.file content Disk.fileMode)) place :=
    Disk.gains_set htakes.free (fun s hs => Disk.isOrdinary_of_locate hworking htakes.leads s
      (List.mem_of_getLast? hs)) content Disk.fileMode
  have htakes' := hgains.same.takes htakes
  have hout : ∀ p, Glob.parse settings.pattern = .ok p → DocumentPath.ofSegments place ∉
      (disk.set place (.file content Disk.fileMode)).documents p := by
    intro p hp hmem
    cases hapart.symm.trans ((readsOutput_iff htakes'.leads hp).2 hmem)
  have hrender' := render_of_gains hgains hgrants hout hrender
  constructor
  · refine check_of_read hgrants hrender' ?_
    rw [hcontent]
    exact Disk.read_set htakes.free htakes.leads content Disk.fileMode
  · rw [compile_of_takes hgrants hrender' htakes', hcontent, Disk.set_set]

/-! ## An output apart from its documents -/

/-- A project with a document in one directory, and another directory for its output. -/
def siteDisk : Disk :=
  ⟨[(["srv".toList], .directory), (["srv".toList, "schemas".toList], .directory),
    (["srv".toList, "schemas".toList, "note.json".toList],
      .file (Text.Utf8.encode "\x7b\"title\":\"Note\"\x7d") Disk.fileMode),
    (["srv".toList, "web".toList], .directory)], ["srv".toList]⟩

/-- All documents of the project are compiled, wherever they are. -/
def siteSettings : Settings := ⟨"**/*.json", "web/events.ts", .default⟩

/-- The project is compiled once for all. -/
theorem compile_siteDisk_then_check :
    ∃ report after, compile Host.reliable siteDisk siteSettings = (.ok report, after) ∧
      check ⟨fun _ => none, 3, [1, 0]⟩ after siteSettings = .ok .upToDate ∧
      compile ⟨fun _ => none, 3, [1, 0]⟩ after siteSettings = (.ok report, after) := by
  have hok : (compile Host.reliable siteDisk siteSettings).1.isOk = true := by decide +kernel
  have hapart : siteSettings.readsOutput (compile Host.reliable siteDisk siteSettings).2 = false :=
    by decide +kernel
  have hworking : ∀ s ∈ siteDisk.working, Path.IsOrdinary s := by decide
  obtain ⟨report, hreport⟩ := exists_of_isOk hok
  have hcompile : compile Host.reliable siteDisk siteSettings =
      (.ok report, (compile Host.reliable siteDisk siteSettings).2) := Prod.ext hreport rfl
  exact ⟨report, _, hcompile, compile_then_check _ _ _ _ _ hworking hcompile hapart 3 [1, 0]⟩

/-! ## An output among its documents -/

/-- Nothing is rendered where the pattern means a file that holds a module and has the name of a
JSON document. -/
theorem render_ne_ok_of_json {text : String} {catalog : Catalog} {options' : ModuleOptions}
    (hmodule : catalog.module options' = .ok text) (hp : Glob.parse pattern = .ok p)
    (hpath : path ∈ disk.documents p) (hformat : Library.format path = .json)
    (hcontent : disk.contentAt path.segments = .ok (Text.Utf8.encode text)) :
    render host disk pattern options ≠ .ok rendered := by
  intro h
  obtain ⟨p', catalog', hp', -, -, hlists, -⟩ := render_eq_ok_iff.1 h
  obtain rfl := Except.ok.inj (hp.symm.trans hp')
  have hin : path ∈ (disk.library host p).documents := mem_sortOnce.2 hpath
  obtain ⟨title, t, hdeclares⟩ := hlists.composable.declares path hin
  obtain ⟨raw, hraw⟩ := hdeclares.parse
  obtain ⟨-, found, hsource, hparse⟩ := parse_eq_ok_iff.1 hraw
  obtain ⟨content, hread, hdecode⟩ :=
    readText_eq_ok_iff.1 (mapError_eq_ok_iff.1 (access_eq_ok hsource))
  obtain rfl := Except.ok.inj ((Disk.contentAt_of_read hread).symm.trans hcontent)
  rw [hformat, parse_module hmodule hdecode] at hparse
  cases hparse

/-- Where the pattern means the output, and this has the name of a JSON document, nothing can be
rendered after a compilation. -/
theorem render_ne_ok_of_readsOutput {report : Report} {after : Disk}
    (hworking : ∀ s ∈ disk.working, Path.IsOrdinary s)
    (hcompile : compile host disk settings = (.ok report, after))
    (hplace : after.locate settings.output = .ok place)
    (hreads : settings.readsOutput after = true)
    (hformat : Library.format (DocumentPath.ofSegments place) = .json) :
    render host' after settings.pattern settings.options ≠ .ok rendered := by
  obtain ⟨rendered, place', hrender, htakes, rfl, -⟩ := compile_eq_ok hcompile
  obtain ⟨p, catalog, hp, -, -, -, text, hmodule, rfl⟩ := render_eq_ok_iff.1 hrender
  have hsame := Disk.sameDirectories_set htakes.free (Text.Utf8.encode text) Disk.fileMode
  obtain rfl := Except.ok.inj ((hsame.locate htakes.leads).symm.trans hplace)
  refine render_ne_ok_of_json hmodule hp ((readsOutput_iff hplace hp).1 hreads) hformat ?_
  rw [DocumentPath.segments_ofSegments (Disk.isOrdinary_of_locate hworking htakes.leads),
    Disk.contentAt, Disk.node?_set_self (Disk.ne_nil_of_hasDirectory htakes.free)]

/-- Where nothing is rendered, neither a comparison nor a compilation succeeds. -/
theorem fails_of_render
    (h : ∀ rendered, render host disk settings.pattern settings.options ≠ .ok rendered) :
    (check host disk settings).isOk = false ∧ (compile host disk settings).1.isOk = false := by
  cases hrender : render host disk settings.pattern settings.options with
  | ok rendered => exact absurd hrender (h rendered)
  | error e =>
    constructor
    · simp only [check, hrender, bind, Except.bind]
      rfl
    · simp only [compile, hrender]
      rfl

/-- The output has a name that the pattern means. -/
def mixedSettings : Settings := ⟨"*.json", "all.json", .default⟩

/-- The first compilation succeeds. Afterwards its output counts as a document, which it is not, so
that neither a comparison nor a second compilation succeeds. -/
theorem compile_then_check_fails :
    let (answer, after) := compile Host.reliable noteDisk mixedSettings
    answer.isOk = true ∧ (check Host.reliable after mixedSettings).isOk = false ∧
      (compile Host.reliable after mixedSettings).1.isOk = false := by
  have hok : (compile Host.reliable noteDisk mixedSettings).1.isOk = true := by decide +kernel
  have hreads : mixedSettings.readsOutput (compile Host.reliable noteDisk mixedSettings).2 =
      true := by decide +kernel
  have hplace : (compile Host.reliable noteDisk mixedSettings).2.locate mixedSettings.output =
      .ok ["all.json".toList] := by decide +kernel
  have hformat : Library.format (DocumentPath.ofSegments ["all.json".toList]) = .json := by
    decide +kernel
  obtain ⟨report, hreport⟩ := exists_of_isOk hok
  have hworking : ∀ s ∈ noteDisk.working, Path.IsOrdinary s := by decide
  exact ⟨hok, fails_of_render fun rendered =>
    render_ne_ok_of_readsOutput hworking (Prod.ext hreport rfl) hplace hreads hformat⟩

end EventSchema
