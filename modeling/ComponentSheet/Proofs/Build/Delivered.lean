import ComponentSheet.Build.Report
import ComponentSheet.Proofs.Component.Policy
import ComponentSheet.Proofs.Import.Located
import ComponentSheet.Proofs.Import.Written

/-! A build delivers the whole of its result or changes nothing, and its exit code says which. -/
namespace ComponentSheet.Build

open Import Component

/-- The options, the imports and the sheet of the command can all be read. -/
structure Reaches (format : Options.Format) (d : Directory) (c : Command) (o : Options)
    (m : Merged) (sheet : List Node) : Prop where
  options : ∃ config, c.fileOptions format d = .ok config ∧ o = c.options config
  merged : merge d.files c.input = .ok m
  read : readSheet m.text = .ok sheet

/-- The line for a diagnostic of a merged text, with its place in the file that it comes from. -/
def line? (m : Merged) (x : Diagnostic) : Option Text :=
  (m.locate? x.pos).map fun place =>
    x.severity.text ++ '[' :: x.problem.code ++ "] ".toList ++ place.1 ++
      ':' :: Nat.toDigits 10 place.2.line ++ ':' :: Nat.toDigits 10 place.2.column ++
      ": ".toList ++ x.problem.message

/-- What becomes of a text that is to be delivered, and of the directory. -/
inductive Delivers (d : Directory) (css : Text) : Option Path → Report → Directory → Prop
  | printed {r : Report} (hs : r.stdout = css) : Delivers d css none r d
  | written {path : Path} {r : Report} {after : Directory} (hs : r.stdout = [])
      (hw : d.writeText path css = some after) (hg : d.Gains path css after) :
      Delivers d css (some path) r after
  | refused {path : Path} {r : Report} (hs : r.stdout = []) (hw : d.writeText path css = none)
      (hc : r.code = 1) : Delivers d css (some path) r d

/-- How a command ends in a directory: with a report, and the directory as it is then. -/
structure Ends (format : Options.Format) (d : Directory) (c : Command) (r : Report)
    (after : Directory) : Prop where
  /-- Unless the sheet is expanded nothing is delivered. -/
  nothing : (∀ o m sheet result log, Reaches format d c o m sheet →
    expandSheet o sheet ≠ .done result log) → after = d ∧ r.stdout = [] ∧ r.code = 1
  /-- An expanded sheet is delivered, whatever has been recorded. -/
  whole : ∀ {o m sheet result log}, Reaches format d c o m sheet →
    expandSheet o sheet = .done result log → Delivers d (printSheet result) c.output r after
  code_eq_zero_iff : r.code = 0 ↔ ∃ o m sheet result log, Reaches format d c o m sheet ∧
    expandSheet o sheet = .done result log ∧ ErrorFree log ∧
      ∀ path ∈ c.output, (d.writeText path (printSheet result)).isSome
  /-- All diagnostics are reported in their order, and behind them one failure at most. -/
  reported : ∀ {o m sheet}, Reaches format d c o m sheet →
    ∃ (lines : List Text) (failure : Option Failure),
      (expandSheet o sheet).diagnostics.map (line? m) = lines.map some ∧
        r.stderr = textOfLines (lines ++ (failure.map failureLine).toList)

variable {format : Options.Format} {d after : Directory} {c : Command} {o : Options} {m : Merged}
  {sheet result : List Node} {x : Diagnostic} {path input : Path} {css : Text} {f : Failure}
  {log : List Diagnostic}

theorem exists_line (hm : merge d.files input = .ok m) (hp : Reported m.text x.pos) :
    line? m x = some (x.textAt (location m input x.pos)) := by
  obtain ⟨ch, hs, hc⟩ := hp.exists_mem
  have hgenuine := genuine_of_merge hm
  obtain ⟨l, hl, -⟩ := exists_origin (fun l hl => (hgenuine l hl).one) (charAt?_of_mem_stamp hs hc)
  have hplace := locate?_eq hl
  -- The lines of a file are counted from one.
  have hknown : (⟨l.number, x.pos.column⟩ : Position) ≠ .unknown := by
    intro h
    have hline := (hgenuine l (mem_of_numbered? hl)).line
    rw [Files.line?, (Position.mk.inj h).1] at hline
    obtain ⟨canonical, -, hline⟩ := Option.bind_eq_some_iff.1 hline
    obtain ⟨content, -, hline⟩ := Option.bind_eq_some_iff.1 hline
    cases hline
  rw [line?, location, hplace]
  simp [Diagnostic.textAt, Position.text, hknown]

theorem map_line? (h : Reaches format d c o m sheet) :
    (expandSheet o sheet).diagnostics.map (line? m) =
      ((expandSheet o sheet).diagnostics.map fun x => x.textAt (location m c.input x.pos)).map
        some := by
  rw [List.map_map, List.map_inj_left]
  intro x hx
  exact exists_line h.merged (.diagnostic h.read hx)

theorem compile_of_read (h : readSheet m.text = .ok sheet) :
    compile o m.text = .ok (printSheet <$> expandSheet o sheet) := by
  rw [compile, h]
  rfl

/-- What is made of a merged text that is a sheet, after the expansion of the sheet. -/
def made (input : Path) (m : Merged) (r : Outcome (List Node)) : Product where
  diagnostics := r.diagnostics.map fun x => x.textAt (location m input x.pos)
  css :=
    match r with
    | .done result _ => .ok (printSheet result)
    | .aborted _ _ fatal => .error (.aborted input fatal)
  hasErrors := r.diagnostics.any (·.severity = .error)

theorem product_of_reaches (h : Reaches format d c o m sheet) :
    product d.files (c.fileOptions format d) c = made c.input m (expandSheet o sheet) := by
  obtain ⟨⟨config, hc, rfl⟩, hm, hr⟩ := h
  simp only [product, hc, hm, expandMerged, compile_of_read hr, made]
  cases expandSheet (c.options config) sheet with
  | done result log => simp [Functor.map, Outcome.bind, Outcome.diagnostics]
  | aborted cause log fatal => rfl

theorem hasErrors_made (input : Path) (m : Merged) (result : List Node) (log : List Diagnostic) :
    (made input m (.done result log)).hasErrors = false ↔ ErrorFree log := by
  simp [made, Outcome.diagnostics, ErrorFree]

theorem reaches_or_fails (format : Options.Format) (d : Directory) (c : Command) :
    (∃ o m sheet, Reaches format d c o m sheet) ∨
      (∀ o m sheet, ¬ Reaches format d c o m sheet) ∧
        ∃ f, (product d.files (c.fileOptions format d) c).css = .error f := by
  cases hc : c.fileOptions format d with
  | error f =>
    refine Or.inr ⟨fun o m sheet h => ?_, f, rfl⟩
    obtain ⟨config, hconfig, -⟩ := h.options
    cases hc.symm.trans hconfig
  | ok config =>
    cases hm : merge d.files c.input with
    | error e =>
      refine Or.inr ⟨fun o m sheet h => ?_, .load e, by simp [product, hm]⟩
      cases hm.symm.trans h.merged
    | ok m =>
      cases hr : readSheet m.text with
      | error e =>
        refine Or.inr ⟨fun o m' sheet h => ?_, .read (location m c.input e.pos) e, ?_⟩
        · obtain rfl := Except.ok.inj (hm.symm.trans h.merged)
          cases hr.symm.trans h.read
        · have hcompile : compile (c.options config) m.text = .error e := by
            rw [compile, hr]
            rfl
          simp [product, hm, expandMerged, hcompile]
      | ok sheet => exact Or.inl ⟨c.options config, m, sheet, ⟨config, hc, rfl⟩, hm, hr⟩

theorem run_eq (format : Options.Format) (d : Directory) (c : Command) :
    run format d c =
      match (product d.files (c.fileOptions format d) c).css with
      | .error f => ((product d.files (c.fileOptions format d) c).failed f, d)
      | .ok css =>
        match c.output with
        | none => ((product d.files (c.fileOptions format d) c).delivered css, d)
        | some path =>
          match d.writeText path css with
          | some after => ((product d.files (c.fileOptions format d) c).delivered [], after)
          | none => ((product d.files (c.fileOptions format d) c).failed (.unwritable path), d) :=
  rfl

/-- Nothing before the expansion depends on anything but the command and the directory. -/
theorem Reaches.unique {o' : Options} {m' : Merged} {sheet' : List Node}
    (h : Reaches format d c o m sheet) (h' : Reaches format d c o' m' sheet') :
    o = o' ∧ m = m' ∧ sheet = sheet' := by
  obtain ⟨⟨config, hc, rfl⟩, hm, hr⟩ := h
  obtain ⟨⟨config', hc', rfl⟩, hm', hr'⟩ := h'
  obtain rfl := Except.ok.inj (hc.symm.trans hc')
  obtain rfl := Except.ok.inj (hm.symm.trans hm')
  exact ⟨rfl, rfl, Except.ok.inj (hr.symm.trans hr')⟩

theorem ends_of_not_reaches (hn : ∀ o m sheet, ¬ Reaches format d c o m sheet)
    (hf : (product d.files (c.fileOptions format d) c).css = .error f) :
    Ends format d c (run format d c).1 (run format d c).2 := by
  have hrun : run format d c = ((product d.files (c.fileOptions format d) c).failed f, d) := by
    rw [run_eq, hf]
  rw [hrun]
  constructor
  case nothing => exact fun _ => ⟨rfl, rfl, rfl⟩
  case whole => exact fun h => absurd h (hn _ _ _)
  case code_eq_zero_iff =>
    constructor
    · intro h
      cases h
    · rintro ⟨o, m, sheet, _, _, h, -⟩
      exact absurd h (hn o m sheet)
  case reported => exact fun h => absurd h (hn _ _ _)

theorem ends_of_aborted {cause : Cause} {fatal : Diagnostic} (h : Reaches format d c o m sheet)
    (hx : expandSheet o sheet = .aborted cause log fatal) :
    Ends format d c (run format d c).1 (run format d c).2 := by
  have hrun : run format d c =
      ((made c.input m (expandSheet o sheet)).failed (.aborted c.input fatal), d) := by
    rw [run_eq, product_of_reaches h, hx]
    rfl
  have hnot : ∀ {o' m' sheet' result log}, Reaches format d c o' m' sheet' →
      expandSheet o' sheet' ≠ .done result log := by
    intro o' m' sheet' result log' h' hd
    obtain ⟨rfl, rfl, rfl⟩ := h.unique h'
    cases hx.symm.trans hd
  rw [hrun]
  constructor
  case nothing => exact fun _ => ⟨rfl, rfl, rfl⟩
  case whole => exact fun h' hd => absurd hd (hnot h')
  case code_eq_zero_iff =>
    constructor
    · intro hzero
      cases hzero
    · rintro ⟨o', m', sheet', result', log', h', hd, -⟩
      exact absurd hd (hnot h')
  case reported =>
    intro o' m' sheet' h'
    obtain ⟨rfl, rfl, rfl⟩ := h.unique h'
    exact ⟨_, some (.aborted c.input fatal), map_line? h, rfl⟩

/-- Where the sheet is expanded, the end is told by what becomes of its text and by the code. -/
theorem Ends.of_done {r : Report} (failure : Option Failure) (h : Reaches format d c o m sheet)
    (hx : expandSheet o sheet = .done result log)
    (hd : Delivers d (printSheet result) c.output r after)
    (hcode : r.code = 0 ↔ ErrorFree log ∧
      ∀ path ∈ c.output, (d.writeText path (printSheet result)).isSome)
    (hr : r.stderr = textOfLines ((made c.input m (expandSheet o sheet)).diagnostics ++
      (failure.map failureLine).toList)) : Ends format d c r after := by
  constructor
  case nothing => exact fun hn => absurd hx (hn o m sheet result log h)
  case whole =>
    intro o' m' sheet' result' log' h' hx'
    obtain ⟨rfl, rfl, rfl⟩ := h.unique h'
    obtain ⟨rfl, -⟩ := Outcome.done.inj (hx.symm.trans hx')
    exact hd
  case code_eq_zero_iff =>
    rw [hcode]
    constructor
    · exact fun hc => ⟨o, m, sheet, result, log, h, hx, hc⟩
    · rintro ⟨o', m', sheet', result', log', h', hx', hc⟩
      obtain ⟨rfl, rfl, rfl⟩ := h.unique h'
      obtain ⟨rfl, rfl⟩ := Outcome.done.inj (hx.symm.trans hx')
      exact hc
  case reported =>
    intro o' m' sheet' h'
    obtain ⟨rfl, rfl, rfl⟩ := h.unique h'
    exact ⟨_, failure, map_line? h, hr⟩

theorem ends_of_done (h : Reaches format d c o m sheet)
    (hx : expandSheet o sheet = .done result log) :
    Ends format d c (run format d c).1 (run format d c).2 := by
  have hproduct := product_of_reaches h
  have hcss : (made c.input m (expandSheet o sheet)).css = .ok (printSheet result) := by
    rw [hx]
    rfl
  have hcode (printed : Text) :
      ((made c.input m (expandSheet o sheet)).delivered printed).code = 0 ↔ ErrorFree log := by
    rw [← hasErrors_made c.input m result, hx, Product.delivered]
    split <;> simp_all
  cases hc : c.output with
  | none =>
    have hrun : run format d c =
        ((made c.input m (expandSheet o sheet)).delivered (printSheet result), d) := by
      rw [run_eq, hproduct, hcss, hc]
    rw [hrun]
    refine .of_done none h hx ?_ ?_ ?_
    · rw [hc]
      exact .printed rfl
    · simp [hcode, hc]
    · simp [Product.delivered]
  | some path =>
    cases hw : d.writeText path (printSheet result) with
    | none =>
      have hrun : run format d c =
          ((made c.input m (expandSheet o sheet)).failed (.unwritable path), d) := by
        rw [run_eq, hproduct, hcss, hc]
        simp only [hw]
      rw [hrun]
      refine .of_done (some (.unwritable path)) h hx ?_ ?_ rfl
      · rw [hc]
        exact .refused rfl hw rfl
      · simp [Product.failed, hc, hw]
    | some after =>
      have hrun : run format d c =
          ((made c.input m (expandSheet o sheet)).delivered [], after) := by
        rw [run_eq, hproduct, hcss, hc]
        simp only [hw]
      rw [hrun]
      refine .of_done none h hx ?_ ?_ ?_
      · rw [hc]
        exact .written rfl hw (Directory.gains_of_writeText hw)
      · simp [hcode, hc, hw]
      · simp [Product.delivered]

theorem ends_of_eq {r : Report} (h : run format d c = (r, after)) : Ends format d c r after := by
  obtain ⟨rfl, rfl⟩ := Prod.mk.inj h
  rcases reaches_or_fails format d c with ⟨o, m, sheet, hr⟩ | ⟨hn, f, hf⟩
  · cases hx : expandSheet o sheet with
    | done result log => exact ends_of_done hr hx
    | aborted cause log fatal => exact ends_of_aborted hr hx
  · exact ends_of_not_reaches hn hf

/-- A command line ends like its command, with options in JSON. -/
theorem ends_runArguments {args : List Text} {r : Report}
    (h : Invocation.ofArguments args = .build c) (hr : runArguments d args = (r, after)) :
    Ends .json d c r after := by
  rw [runArguments, h] at hr
  exact ends_of_eq hr

/-- Every build ends in this way. -/
theorem ends_run (format : Options.Format) (d : Directory) (c : Command) :
    Ends format d c (run format d c).1 (run format d c).2 :=
  ends_of_eq rfl

/-- A rule in an imported file is left out with an error, and the rest is written all the same. -/
theorem ends_run_imported :
    let d := Directory.ofEntries [("a.css".toList, .text "@import \"/lib/b.css\";\n".toList),
      ("/lib/b.css".toList, .text
        "@component B \x7b\n  state()\x7b\x7d\n  .c\x7b\x7d\n\x7d\n".toList),
      ("c.json".toList, .text "\x7b\"onError\": \"continue\"\x7d".toList),
      ("/tmp".toList, .folder)]
    let out := "/tmp/out.css".toList
    let c : Command := ⟨"a.css".toList, some out, some "c.json".toList, none, false⟩
    let r := run .json d c
    (r.1.code, r.1.stdout, r.1.stderr, r.2.readText out) = (1, [],
        "error[missing-macro-parameter] /lib/b.css:2:3: ".toList ++
          "state() requires a parameter in selector \x60state()\x60\n".toList,
        some ".spectrum-B-c \x7b\n\x7d\n".toList) ∧
      Ends .json d c r.1 r.2 := by
  intro d out c r
  exact ⟨by decide +kernel, ends_run .json d c⟩

end ComponentSheet.Build
