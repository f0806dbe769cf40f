import ApiContract.Proofs.CommandLine.Printing
import ApiContract.Proofs.CommandLine.Rows
import ApiContract.Proofs.Json.Reading

/-!
# What an inspection prints

The commands that inspect print the rows that can be read off the root schemas, as a table whose
text is fixed by its cells.  Without rows they print nothing.
-/

namespace ApiContract.CommandLine

open Host Schema

variable {w : World}

/-! ## Tables of texts -/

/-- The text of a table: its records in JSON, or a line of titles and one for each row. -/
def Table.text? (format : OutputFormat) (t : Table) : Option String :=
  match format with
  | .json => do
      let records ← t.records?
      return (← Json.write? (.block 2) records) ++ "\n"
  | _ => do
      let lines ← (t.titles :: t.rows).mapM Table.lineText?
      return String.join (lines.map (· ++ "\n"))

/-- Every cell is a text. -/
def AreTexts (rows : List (List Value)) : Prop :=
  ∀ row ∈ rows, ∀ cell ∈ row, ∃ s, cell = .str s

theorem areTexts_append {rows others : List (List Value)} (hrows : AreTexts rows)
    (hothers : AreTexts others) : AreTexts (rows ++ others) := fun row hrow =>
  (List.mem_append.mp hrow).elim (hrows row) (hothers row)

theorem areTexts_titles (titles : List String) : AreTexts [titles.map .str] := by
  intro row hrow cell hcell
  rw [List.mem_singleton.mp hrow] at hcell
  obtain ⟨s, -, rfl⟩ := List.mem_map.mp hcell
  exact ⟨s, rfl⟩

/-- If every item has a result with a property, all have. -/
theorem exists_mapM {α β : Type} {f : α → Option β} {holds : β → Prop} {items : List α}
    (hitems : ∀ a ∈ items, ∃ b, f a = some b ∧ holds b) :
    ∃ results, items.mapM f = some results ∧ ∀ b ∈ results, holds b := by
  induction items with
  | nil => exact ⟨[], rfl, nofun⟩
  | cons first rest ih =>
      obtain ⟨b, hb, hholds⟩ := hitems first List.mem_cons_self
      obtain ⟨others, hothers, hall⟩ := ih fun a ha => hitems a (List.mem_cons_of_mem _ ha)
      refine ⟨b :: others, by rw [List.mapM_cons, hb, hothers]; rfl, ?_⟩
      exact List.forall_mem_cons.mpr ⟨hholds, hall⟩

theorem exists_lines {rows : List (List Value)} (htexts : AreTexts rows) :
    ∃ lines, rows.mapM Table.lineText? = some lines := by
  have hrows : ∀ row ∈ rows, ∃ line, Table.lineText? row = some line ∧ True := by
    intro row hrow
    rw [Table.lineText?, mapM_asText? (htexts row hrow)]
    exact ⟨_, rfl, trivial⟩
  obtain ⟨lines, hlines, -⟩ := exists_mapM hrows
  exact ⟨lines, hlines⟩

/-- A record of texts under texts has a JSON text. -/
theorem exists_record {titles row : List Value} (htitles : ∀ title ∈ titles, ∃ s, title = .str s)
    (hrow : ∀ cell ∈ row, ∃ s, cell = .str s) :
    ∃ v, Table.record? titles row = some v ∧ v.isJson = true := by
  have hcells : ∀ cell ∈ titles.zip row, (∃ s, cell.1 = .str s) ∧ ∃ s, cell.2 = .str s :=
    fun cell hcell => ⟨htitles _ (List.of_mem_zip hcell).1, hrow _ (List.of_mem_zip hcell).2⟩
  have hkeys : (titles.zip row).all (·.1.isKey) = true := by
    rw [List.all_eq_true]
    intro cell hcell
    obtain ⟨s, hs⟩ := (hcells cell hcell).1
    rw [hs]
    rfl
  refine ⟨.map (Entries.ofList (titles.zip row)), by rw [Table.record?, if_pos hkeys], ?_⟩
  refine Json.isJson_ofList (Value.isJson_map_iff.mpr fun cell hcell => ?_)
  obtain ⟨⟨key, hkey⟩, value, hvalue⟩ := hcells cell hcell
  rw [hkey, hvalue]
  exact ⟨rfl, rfl⟩

theorem ends_lines {rows : List (List Value)} {lines : List String}
    (hlines : rows.mapM Table.lineText? = some lines) :
    Ends (Run.lines rows) w (.ok ()) (String.join (lines.map (· ++ "\n"))) w := by
  induction rows generalizing lines with
  | nil =>
      cases hlines
      exact Ends.pure ()
  | cons row rest ih =>
      rw [List.mapM_cons] at hlines
      obtain ⟨line, hline, hlines⟩ := Option.bind_eq_some_iff.mp hlines
      obtain ⟨others, hothers, hlines⟩ := Option.bind_eq_some_iff.mp hlines
      cases hlines
      rw [Run.lines, hline, List.map_cons, String.join_cons]
      exact (Ends.pure line).after ((Ends.report (.line line)).bind (ih hothers))

/-- A table of texts has a text, and that is what is printed. -/
theorem exists_text_of_table (format : OutputFormat) {titles : List String}
    {rows : List (List Value)} (htexts : AreTexts rows) :
    ∃ text, Table.text? format ⟨titles.map .str, rows⟩ = some text ∧
      Ends (Run.table format ⟨titles.map .str, rows⟩) w (.ok ()) text w := by
  have hlines (hformat : format ≠ .json) :
      ∃ text, Table.text? format ⟨titles.map .str, rows⟩ = some text ∧
        Ends (Run.table format ⟨titles.map .str, rows⟩) w (.ok ()) text w := by
    obtain ⟨lines, hlines⟩ := exists_lines (areTexts_append (areTexts_titles titles) htexts)
    have hlines : (titles.map Value.str :: rows).mapM Table.lineText? = some lines := hlines
    refine ⟨String.join (lines.map (· ++ "\n")), ?_, ?_⟩
    · cases format with
      | json => exact absurd rfl hformat
      | _ => simp [Table.text?, hlines]
    · cases format with
      | json => exact absurd rfl hformat
      | _ => exact ends_lines hlines
  cases format with
  | json =>
      have htitles := areTexts_titles titles _ (List.mem_singleton_self _)
      obtain ⟨vs, hvs, hjson⟩ := exists_mapM fun row hrow => exists_record htitles (htexts row hrow)
      have hrecords : Table.records? ⟨titles.map .str, rows⟩ = some (.list vs) := by
        rw [Table.records?, hvs]
        rfl
      have hwritten : Json.write? (.block 2) (.list vs) = some (Json.render (.block 2) 0 (.list vs)) := by
        rw [Json.write?, Value.isJson_list_iff.mpr hjson]
        rfl
      refine ⟨Json.render (.block 2) 0 (.list vs) ++ "\n", ?_, ?_⟩
      · simp [Table.text?, hrecords, hwritten]
      · rw [Run.table, hrecords]
        exact Ends.document_of_some hwritten
  | _ => exact hlines (by decide)

/-- What is printed for rows: their table, or nothing if there are none. -/
def Prints (format : OutputFormat) (titles : List String) (rows : List (List Value))
    (text : String) : Prop :=
  if rows.isEmpty then text = "" else Table.text? format ⟨titles.map .str, rows⟩ = some text

theorem exists_prints_of_listRows (format : OutputFormat) (titles : List String)
    {rows : List (List Value)} (emptyText : String) (htexts : AreTexts rows) :
    ∃ text, Prints format titles rows text ∧
      Ends (listRows format titles rows emptyText) w (.ok ()) text w := by
  unfold Prints listRows
  split
  · exact ⟨"", rfl, Ends.report _⟩
  · exact exists_text_of_table format htexts

/-! ## Rows of texts -/

section Texts

variable {document : Value} {collection : Collection} {rows : List (List Value)}

theorem areTexts_operationRow (collection : Collection) (key method : String)
    (shape : OperationShape) : AreTexts [operationRow collection (.str key) method shape] := by
  intro row hrow cell hcell
  rw [List.mem_singleton.mp hrow] at hcell
  simp only [operationRow, countCell, List.mem_cons, List.not_mem_nil, or_false] at hcell
  rcases hcell with rfl | rfl | rfl | rfl | rfl <;> exact ⟨_, rfl⟩

theorem areTexts_methodRows {key : String} {methods : List String}
    (hread : (methodRows collection document (.str key) methods).outcome = .ok rows) :
    AreTexts rows := by
  induction methods generalizing rows with
  | nil =>
      cases hread
      exact List.forall_mem_nil _
  | cons method rest ih =>
      simp only [methodRows, Traced.outcome_bind, Traced.outcome_pure, bind_eq_ok_iff] at hread
      obtain ⟨shape, -, others, hothers, hread⟩ := hread
      cases hread
      exact areTexts_append (areTexts_operationRow _ _ _ _) (ih hothers)

theorem areTexts_itemRows {listed : Entries} (htext : ∀ entry ∈ listed, ∃ name, entry.1 = .str name)
    (hread : (itemRows collection document listed).outcome = .ok rows) : AreTexts rows := by
  induction listed generalizing rows with
  | nil =>
      cases hread
      exact List.forall_mem_nil _
  | cons entry rest ih =>
      obtain ⟨key, pathItem⟩ := entry
      obtain ⟨name, rfl⟩ := htext _ List.mem_cons_self
      simp only [itemRows, Traced.outcome_bind, Traced.outcome_lift, Traced.outcome_pure,
        bind_eq_ok_iff] at hread
      obtain ⟨names, -, first, hfirst, others, hothers, hread⟩ := hread
      cases hread
      exact areTexts_append (areTexts_methodRows hfirst)
        (ih (fun other hother => htext other (List.mem_cons_of_mem _ hother)) hothers)

theorem areTexts_collectionRows {collections : List Collection}
    (htext : CollectionKeysAreTexts document)
    (hread : (collectionRows document collections).outcome = .ok rows) : AreTexts rows := by
  induction collections generalizing rows with
  | nil =>
      cases hread
      exact List.forall_mem_nil _
  | cons collection rest ih =>
      simp only [collectionRows, Traced.outcome_bind, Traced.outcome_lift, Traced.outcome_pure,
        bind_eq_ok_iff] at hread
      obtain ⟨listed, hlisted, first, hfirst, others, hothers, hread⟩ := hread
      cases hread
      have hkeys : ∀ entry ∈ listed, ∃ name, entry.1 = .str name :=
        fun entry hentry => htext collection entry (mem_of_items hlisted hentry)
      exact areTexts_append (areTexts_itemRows hkeys hfirst) (ih hothers)

theorem areTexts_componentRows {token : Token} (hread : componentRows token = .ok rows) :
    AreTexts rows := by
  induction token generalizing rows with
  | nil =>
      cases hread
      exact List.forall_mem_nil _
  | cons entry rest ih =>
      rw [componentRows] at hread
      split at hread
      · cases hread
      · obtain ⟨others, hothers, hread⟩ := bind_eq_ok_iff.mp hread
        cases hread
        refine List.forall_mem_cons.mpr ⟨fun cell hcell => ?_, ih hothers⟩
        simp only [countCell, List.mem_cons, List.not_mem_nil, or_false] at hcell
        rcases hcell with rfl | rfl | rfl <;> exact ⟨_, rfl⟩

end Texts

/-! ## Runs that inspect -/

def operationTitles : List String :=
  ["Kind", "Method", "Key", "Request branches", "Response branches"]

def componentTitles : List String := ["Kind", "Members", "Names"]

/-- What an inspection meets on its way: its call, the settings of the program and its own, and the
description with its references expanded. -/
structure InspectRun where
  call : Call
  request : InspectRequest
  general : Settings
  settings : Settings
  document : Value

namespace InspectRun

variable (i : InspectRun) (w : World)

/-- The world once the format is decided. -/
def opened : World := (Settings.load w (formatFlags i.call.options)).1

/-- The settings that the command line gives to an inspection. -/
def flags : Settings.Flags := ⟨.null, .null, timeoutFlag i.request.timeout⟩

/-- The world that the source is read in. -/
def ready : World := (Settings.load (i.opened w) i.flags).1

def format : OutputFormat :=
  i.general.format.decide (i.opened w) (i.call.options.has "no-color")

end InspectRun

/-- An inspection that gets to its description: its arguments and all settings are valid, and its
source is accepted. -/
structure LeadsToDocument (w : World) (args : List String) (i : InspectRun) : Prop where
  call : i.call.IsOf args
  group : i.call.group = .inspect
  general : (Settings.load w (formatFlags i.call.options)).2 = .ok i.general
  format : i.format w ≠ .rich
  settings : (Settings.load (i.opened w) i.flags).2 = .ok i.settings
  document : (Description.loadInline (i.ready w) i.settings.timeout i.request.source).outcome =
    .ok i.document

namespace LeadsToDocument

variable {args : List String} {i : InspectRun} (h : LeadsToDocument w args i) {text : String}

include h

theorem ends_loadRequested :
    Ends (loadRequested i.request) (i.opened w) (.ok i.document) "" (i.ready w) := by
  refine (Ends.change (Prod.ext rfl h.settings)).after ?_
  exact Ends.world.after (Ends.stage h.document)

/-- A command that prints a text leaves a run that has printed it and succeeded. -/
theorem run_of_perform {last : World}
    (hperform : Ends (perform (i.format w) i.call.command) (i.opened w) (.ok ()) text last) :
    (run w args).exitCode = 0 ∧ (run w args).output = text := by
  have hgroup : i.call.group ≠ .config := by
    rw [h.group]
    decide
  rw [h.call.run_eq]
  exact (h.call.ends_dispatch
    (Call.IsOf.ends_requestedFormat hgroup (Prod.ext rfl h.general)) hperform).finish

theorem prints_operations {rows : List (List Value)}
    (hcommand : i.call.command = .inspectOperations i.request) (htexts : AreTexts rows)
    (hrows : (operationRows i.document).outcome = .ok rows) :
    (run w args).exitCode = 0 ∧
      Prints (i.format w) operationTitles rows (run w args).output := by
  obtain ⟨text, hprints, hends⟩ := exists_prints_of_listRows (i.format w) operationTitles
    "No operations defined in this document." htexts
  obtain ⟨hexit, houtput⟩ := h.run_of_perform (by
    rw [hcommand]
    exact h.ends_loadRequested.after ((Ends.stage hrows).after hends))
  exact ⟨hexit, houtput ▸ hprints⟩

theorem prints_components {token : Token} {rows : List (List Value)}
    (hcommand : i.call.command = .inspectComponents i.request)
    (htoken : (componentsToken i.document).outcome = .ok token)
    (hrows : componentRows token = .ok rows) :
    (run w args).exitCode = 0 ∧
      Prints (i.format w) componentTitles rows (run w args).output := by
  obtain ⟨text, hprints, hends⟩ := exists_prints_of_listRows (i.format w) componentTitles
    "No components defined in this document." (areTexts_componentRows hrows)
  obtain ⟨hexit, houtput⟩ := h.run_of_perform (by
    rw [hcommand]
    exact h.ends_loadRequested.after
      ((Ends.stage htoken).after ((Ends.ofExcept hrows).after hends)))
  exact ⟨hexit, houtput ▸ hprints⟩

end LeadsToDocument

/-- What a command inspects. -/
def inspectRequest? : Command → Option InspectRequest
  | .inspectOperations request | .inspectComponents request => some request
  | _ => none

/-- The inspection that arguments ask for, if it gets to its description. -/
def inspectRun? (w : World) (args : List String) : Option InspectRun := do
  let call ← call? args
  let request ← inspectRequest? call.command
  let (opened, general) := Settings.load w (formatFlags call.options)
  let (ready, settings) := Settings.load opened ⟨.null, .null, timeoutFlag request.timeout⟩
  let general ← general.toOption
  let settings ← settings.toOption
  let document ←
    (Description.loadInline ready settings.timeout request.source).outcome.toOption
  let i : InspectRun := ⟨call, request, general, settings, document⟩
  if call.group = .inspect ∧ i.format w ≠ .rich then some i else none

theorem leadsToDocument_of_inspectRun? {args : List String} {i : InspectRun}
    (hfound : inspectRun? w args = some i) : LeadsToDocument w args i := by
  simp only [inspectRun?, Option.bind_eq_bind, Option.bind_eq_some_iff, toOption_eq_some_iff]
    at hfound
  obtain ⟨call, hcall, request, -, general, hgeneral, settings, hsettings, document, hdocument,
    hfound⟩ := hfound
  split at hfound
  case isTrue hchecked =>
    cases hfound
    exact { call := isOf_of_call? hcall, group := hchecked.1, general := hgeneral,
            format := hchecked.2, settings := hsettings, document := hdocument }
  case isFalse => cases hfound

/-- Whether all keys of a value are texts. -/
def hasTextKeys (v : Value) : Bool := (entriesIn v).all (·.1.asText?.isSome)

theorem exists_str_of_hasTextKeys {v : Value} (htext : hasTextKeys v = true) :
    ∀ entry ∈ entriesIn v, ∃ name, entry.1 = .str name := by
  intro entry hentry
  have hkey := List.all_eq_true.mp htext entry hentry
  cases hcase : entry.1 with
  | str name => exact ⟨name, rfl⟩
  | _ => simp [hcase, Value.asText?] at hkey

/-- A webhook, and a path beside an extension and a member without a declaration. -/
def shelfText : String :=
  "\x7b\"openapi\":\"3.1.0\",\"webhooks\":\x7b\"w\":\x7b\"post\":\x7b\x7d\x7d\x7d,\"paths\":" ++
  "\x7b\"x-a\":\x7b\"get\":\x7b\x7d\x7d,\"/b\":null,\"/c\":\x7b\"put\":\x7b\x7d\x7d\x7d\x7d"

end ApiContract.CommandLine
