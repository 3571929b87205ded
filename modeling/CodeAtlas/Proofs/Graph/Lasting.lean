import CodeAtlas.Graph.Query
import CodeAtlas.Proofs.Graph.Writes

/-! The links that stay. All but those to definitions are never taken out again, so a finished graph
has them in the order of the documents: relationships and references as a document alone tells them,
and calls as the references up to that document do. -/

namespace CodeAtlas

namespace Link

def lasting? (l : Link) : Option Link := if l.isContains then none else some l

def recordedIn? (file : String) : Link → Option Reference
  | reference symbol path site => if path == file then some ⟨symbol, site⟩ else none
  | _ => none

theorem lasting?_bind {β : Type} {pick : Link → Option β}
    (hpick : ∀ file s, pick (.contains file s) = none)
    (l : Link) : l.lasting?.bind pick = pick l := by
  cases l with
  | contains file s => exact (hpick file s).symm
  | _ => rfl

end Link

namespace SymbolGraph

/-- The links that stay, newest first. -/
def lasting (g : SymbolGraph) : List Link := g.picked Link.lasting?

theorem picked_eq_filterMap_lasting {β : Type} {pick : Link → Option β}
    (hpick : ∀ file s, pick (.contains file s) = none) (g : SymbolGraph) :
    g.picked pick = g.lasting.filterMap pick := by
  rw [lasting, picked, picked, List.filterMap_filterMap]
  refine List.filterMap_congr ?_
  rintro ⟨slot, l⟩ _
  exact (Link.lasting?_bind hpick l).symm

@[simp] theorem lasting_addFile (g : SymbolGraph) (path : String) :
    (g.addFile path).lasting = g.lasting :=
  picked_addFile ..

@[simp] theorem lasting_addSymbol (g : SymbolGraph) (s : Symbol) :
    (g.addSymbol s).lasting = g.lasting :=
  picked_addSymbol ..

theorem lasting_addLink (g : SymbolGraph) {l : Link} (hl : l.isContains = false) :
    (g.addLink l).lasting = l :: g.lasting := by
  rw [lasting, picked_addLink, Link.lasting?, hl]
  rfl

@[simp] theorem lasting_setDefinition (g : SymbolGraph) (s : Symbol) (file : String) :
    (g.setDefinition s file).lasting = g.lasting :=
  picked_setDefinition _ g (fun _ _ => rfl) s file

theorem lasting_foldl {α : Type} {f : SymbolGraph → α → SymbolGraph} {links : α → List Link}
    (step : ∀ g a, (f g a).lasting = (links a).reverse ++ g.lasting) (as : List α)
    (g : SymbolGraph) :
    (as.foldl f g).lasting = (as.flatMap links).reverse ++ g.lasting := by
  induction as generalizing g with
  | nil => rfl
  | cons a as ih =>
    rw [List.foldl_cons, ih, step, List.flatMap_cons, List.reverse_append, List.append_assoc]

/-! ### References inside a span -/

/-- The references that a span encloses, of those recorded in its file, which come newest first. -/
def enclosed (recorded : List Reference) (span : SourceSpan) : List Reference :=
  Ordered.squeeze ((recorded.filter fun r =>
    span.encloses r.site.line r.site.column).mergeSort Reference.le)

theorem enclosed_nil (span : SourceSpan) : enclosed [] span = [] := by
  rw [enclosed, List.filter_nil, List.mergeSort_nil]
  rfl

def recordedIn (g : SymbolGraph) (file : String) : List Reference :=
  g.picked (Link.recordedIn? file)

theorem referencesInSpan_eq_enclosed (g : SymbolGraph) (span : SourceSpan) :
    g.referencesInSpan span = enclosed (g.recordedIn span.path) span := by
  rw [referencesInSpan, enclosed, recordedIn, picked, List.filter_filterMap]
  congr 2
  refine List.filterMap_congr ?_
  rintro ⟨slot, l⟩ _
  cases l with
  | reference symbol file site =>
    cases hfile : file == span.path <;> cases henc : span.encloses site.line site.column <;>
      simp [Link.recordedIn?, hfile, henc, Option.filter]
  | _ => rfl

theorem recordedIn_eq (g : SymbolGraph) (file : String) :
    g.recordedIn file = g.lasting.filterMap (Link.recordedIn? file) :=
  picked_eq_filterMap_lasting (fun _ _ => rfl) g

/-! ### The links of a document -/

def relationshipLink? (s : Symbol) (r : Relationship) : Option Link :=
  (symbol? r.symbol).map fun target => .relationship s target r.kindBits

def informationLinks (i : SymbolInformation) : List Link :=
  match symbol? i.symbol with
  | none => []
  | some s => i.relationships.filterMap (relationshipLink? s)

def referenceOf? (o : Occurrence) : Option Reference :=
  match symbol? o.symbol, SourceRange.ofRaw? o.range with
  | some s, some range => some ⟨s, range.startLine, range.startColumn, Roles.ofRaw o.roles⟩
  | _, _ => none

def referencesOf (d : Document) : List Reference := d.occurrences.filterMap referenceOf?

def documentLinks (d : Document) : List Link :=
  d.symbols.flatMap informationLinks ++ (referencesOf d).map fun r =>
    .reference r.symbol d.path r.site

theorem lasting_addRelationship (s : Symbol) (g : SymbolGraph) (r : Relationship) :
    (addRelationship s g r).lasting = (relationshipLink? s r).toList.reverse ++ g.lasting := by
  unfold addRelationship relationshipLink?
  cases symbol? r.symbol with
  | none => rfl
  | some target =>
    rw [lasting_addLink _ rfl, lasting_addSymbol]
    rfl

theorem lasting_addInformation (g : SymbolGraph) (i : SymbolInformation) :
    (g.addInformation i).lasting = (informationLinks i).reverse ++ g.lasting := by
  unfold addInformation informationLinks
  cases symbol? i.symbol with
  | none => rfl
  | some s =>
    simp only [lasting_foldl (lasting_addRelationship s), lasting_addSymbol,
      List.filterMap_eq_flatMap_toList]

theorem lasting_addDeclaration (file : String) (g : SymbolGraph) (i : SymbolInformation) :
    (addDeclaration file g i).lasting = (informationLinks i).reverse ++ g.lasting := by
  rw [← lasting_addInformation]
  unfold addDeclaration
  cases hs : symbol? i.symbol with
  | none => simp [addInformation, hs]
  | some s => simp

theorem lasting_addOccurrence (file : String) (g : SymbolGraph) (o : Occurrence) :
    (addOccurrence file g o).lasting =
      ((referenceOf? o).toList.map fun r => .reference r.symbol file r.site).reverse ++
        g.lasting := by
  unfold addOccurrence referenceOf?
  cases symbol? o.symbol with
  | none => rfl
  | some s =>
    cases SourceRange.ofRaw? o.range with
    | none => rfl
    | some range =>
      -- the definition that may come with a reference does not last
      simp only
      split
      · rw [lasting_setDefinition, lasting_addLink _ rfl, lasting_addSymbol]
        rfl
      · rw [lasting_addLink _ rfl, lasting_addSymbol]
        rfl

/-! ### The links of calls -/

def callLinks (method : Symbol) (r : Reference) : List Link :=
  if r.symbol == method || !r.symbol.isCallable then []
  else [.caller method r.symbol r.site, .callee r.symbol method r.site]

def bodyLinks (resolver : SourceResolver) (recorded : String → List Reference) (method : Symbol) :
    List Link :=
  match resolver.span method with
  | .ok (some span) => (enclosed (recorded span.path) span).flatMap (callLinks method)
  | _ => []

def methodLinks (resolver : Option SourceResolver) (recorded : String → List Reference)
    (d : Document) :
    List Link :=
  match resolver with
  | none => []
  | some resolver =>
    ((declared d).filter fun s => s.kind = .method).flatMap (bodyLinks resolver recorded)

theorem pick_of_mem_bodyLinks {β : Type} {pick : Link → Option β}
    (hcaller : ∀ s t site, pick (.caller s t site) = none)
    (hcallee : ∀ s t site, pick (.callee s t site) = none) {resolver : SourceResolver}
    {recorded : String → List Reference} {method : Symbol} {l : Link}
    (hl : l ∈ bodyLinks resolver recorded method) :
    pick l = none := by
  unfold bodyLinks at hl
  split at hl
  · obtain ⟨r, -, hl⟩ := List.mem_flatMap.1 hl
    unfold callLinks at hl
    split at hl
    · cases hl
    · rcases List.mem_cons.1 hl with rfl | hl
      · exact hcaller _ _ _
      · rw [List.mem_singleton.1 hl]
        exact hcallee _ _ _
  · cases hl

theorem lasting_addCall (method : Symbol) (g : SymbolGraph) (r : Reference) :
    (addCall method g r).lasting = (callLinks method r).reverse ++ g.lasting := by
  unfold addCall callLinks
  split
  · rfl
  · rw [lasting_addLink _ rfl, lasting_addLink _ rfl, lasting_addSymbol]
    rfl

theorem lasting_addCalls (resolver : SourceResolver) (g : SymbolGraph) (method : Symbol) :
    (addCalls resolver g method).lasting =
      (bodyLinks resolver g.recordedIn method).reverse ++ g.lasting := by
  rw [addCalls, bodyLinks]
  rcases resolver.span method with e | (_ | span)
  · rfl
  · rfl
  · simp only [lasting_foldl (lasting_addCall method), lasting_addSymbol,
      referencesInSpan_eq_enclosed]

theorem recordedIn_addCalls (resolver : SourceResolver) (g : SymbolGraph) (method : Symbol) :
    (addCalls resolver g method).recordedIn = g.recordedIn := by
  funext file
  have hnone : (bodyLinks resolver g.recordedIn method).reverse.filterMap (Link.recordedIn? file) =
      [] :=
    List.filterMap_eq_nil_iff.2 fun _ hl =>
      pick_of_mem_bodyLinks (fun _ _ _ => rfl) (fun _ _ _ => rfl) (List.mem_reverse.1 hl)
  rw [recordedIn_eq, lasting_addCalls, List.filterMap_append, hnone, List.nil_append,
    ← recordedIn_eq]

theorem lasting_foldl_addCalls (resolver : SourceResolver) (methods : List Symbol)
    (g : SymbolGraph) :
    (methods.foldl (addCalls resolver) g).lasting =
      (methods.flatMap (bodyLinks resolver g.recordedIn)).reverse ++ g.lasting := by
  induction methods generalizing g with
  | nil => rfl
  | cons method methods ih =>
    rw [List.foldl_cons, ih, recordedIn_addCalls, lasting_addCalls, List.flatMap_cons,
      List.reverse_append, List.append_assoc]

/-! ### The finished graph -/

def recordedBy (ds : List Document) (file : String) : List Reference :=
  ((ds.filter fun d => d.path == file).flatMap referencesOf).reverse

/-- The links of some documents in order, after the documents `before`. -/
def linksAfter (resolver : Option SourceResolver) (before : List Document) :
    List Document → List Link
  | [] => []
  | d :: ds =>
    documentLinks d ++ methodLinks resolver (recordedBy (before ++ [d])) d
      ++ linksAfter resolver (before ++ [d]) ds

theorem eq_relationship_of_mem_informationLinks {i : SymbolInformation} {l : Link}
    (hl : l ∈ informationLinks i) : ∃ s target kinds, l = .relationship s target kinds := by
  unfold informationLinks at hl
  split at hl
  · cases hl
  · rename_i s hs
    obtain ⟨r, -, hr⟩ := List.mem_filterMap.1 hl
    obtain ⟨target, -, rfl⟩ := Option.map_eq_some_iff.1 hr
    exact ⟨s, target, r.kindBits, rfl⟩

theorem eq_relationship_of_mem_informations {is : List SymbolInformation} {l : Link}
    (hl : l ∈ is.flatMap informationLinks) :
    ∃ s target kinds, l = .relationship s target kinds := by
  obtain ⟨i, -, hl⟩ := List.mem_flatMap.1 hl
  exact eq_relationship_of_mem_informationLinks hl

theorem filterMap_informations {β : Type} {pick : Link → Option β}
    (hrelationship : ∀ s target kinds, pick (.relationship s target kinds) = none)
    (is : List SymbolInformation) :
    (is.flatMap informationLinks).filterMap pick = [] := by
  refine List.filterMap_eq_nil_iff.2 fun l hl => ?_
  obtain ⟨s, target, kinds, rfl⟩ := eq_relationship_of_mem_informations hl
  exact hrelationship s target kinds

theorem filterMap_recordedIn?_documentLinks (d : Document) (file : String) :
    (documentLinks d).filterMap (Link.recordedIn? file) =
      if d.path == file then referencesOf d else [] := by
  rw [documentLinks, List.filterMap_append, filterMap_informations fun _ _ _ => rfl,
    List.nil_append, List.filterMap_map]
  cases hfile : d.path == file <;> simp [Function.comp_def, Link.recordedIn?, hfile]

theorem recordedBy_concat (ds : List Document) (d : Document) (file : String) :
    recordedBy (ds ++ [d]) file =
      (if d.path == file then referencesOf d else []).reverse ++ recordedBy ds file := by
  unfold recordedBy
  rw [List.filter_append, List.flatMap_append, List.reverse_append]
  cases hfile : d.path == file <;> simp [hfile]

theorem addDocument_lasting (resolver : Option SourceResolver) {g : SymbolGraph}
    {before : List Document} (hg : g.recordedIn = recordedBy before) (d : Document) :
    (addDocument resolver g d).lasting =
        (documentLinks d ++ methodLinks resolver (recordedBy (before ++ [d])) d).reverse ++
          g.lasting ∧
      (addDocument resolver g d).recordedIn = recordedBy (before ++ [d]) := by
  -- the graph before the methods of the document are read
  let written := d.occurrences.foldl (addOccurrence d.path)
    (d.symbols.foldl (addDeclaration d.path) (g.addFile d.path))
  have hwritten : written.lasting = (documentLinks d).reverse ++ g.lasting := by
    simp only [written, lasting_foldl (lasting_addOccurrence d.path),
      lasting_foldl (lasting_addDeclaration d.path), lasting_addFile, documentLinks, referencesOf,
      List.filterMap_eq_flatMap_toList, List.map_flatMap, List.reverse_append, List.append_assoc]
  have hrecorded : written.recordedIn = recordedBy (before ++ [d]) := by
    funext file
    rw [recordedIn_eq, hwritten, List.filterMap_append, List.filterMap_reverse,
      filterMap_recordedIn?_documentLinks, ← recordedIn_eq, hg, recordedBy_concat]
  cases resolver with
  | none =>
    rw [methodLinks, List.append_nil]
    exact ⟨hwritten, hrecorded⟩
  | some resolver =>
    have hcalls := lasting_foldl_addCalls resolver
      ((declared d).filter fun s => s.kind = .method) written
    have hkept := foldl_keeps (recordedIn_addCalls resolver)
      ((declared d).filter fun s => s.kind = .method) written
    rw [hrecorded, hwritten] at hcalls
    rw [hrecorded] at hkept
    rw [List.reverse_append, List.append_assoc]
    exact ⟨hcalls, hkept⟩

theorem foldl_addDocument_lasting (resolver : Option SourceResolver) (ds : List Document)
    {g : SymbolGraph} {before : List Document} (hg : g.recordedIn = recordedBy before) :
    (ds.foldl (addDocument resolver) g).lasting =
      (linksAfter resolver before ds).reverse ++ g.lasting ∧
      (ds.foldl (addDocument resolver) g).recordedIn = recordedBy (before ++ ds) := by
  induction ds generalizing g before with
  | nil =>
    rw [List.append_nil]
    exact ⟨rfl, hg⟩
  | cons d ds ih =>
    obtain ⟨hlasting, hrecorded⟩ := addDocument_lasting resolver hg d
    obtain ⟨hrest, hall⟩ := ih hrecorded
    rw [List.append_assoc] at hall
    refine ⟨?_, hall⟩
    rw [List.foldl_cons, hrest, hlasting, linksAfter, ← List.append_assoc, ← List.reverse_append]

variable {resolver : Option SourceResolver} {x : Index} {g : SymbolGraph}

theorem lasting_of_build (hg : build resolver x = .ok g) :
    g.lasting =
      (linksAfter resolver [] x.documents ++
        x.externalSymbols.flatMap informationLinks).reverse := by
  have hempty : ({} : SymbolGraph).recordedIn = recordedBy [] := rfl
  rw [eq_of_build hg, lasting_foldl lasting_addInformation,
    (foldl_addDocument_lasting resolver x.documents hempty).1, List.reverse_append]
  exact congrArg _ (List.append_nil _)

theorem recordedIn_of_build (hg : build resolver x = .ok g) :
    g.recordedIn = recordedBy x.documents := by
  have hempty : ({} : SymbolGraph).recordedIn = recordedBy [] := rfl
  have hdocuments := (foldl_addDocument_lasting resolver x.documents hempty).2
  funext file
  rw [recordedIn_eq, eq_of_build hg, lasting_foldl lasting_addInformation, List.filterMap_append,
    List.filterMap_reverse, filterMap_informations fun _ _ _ => rfl, List.reverse_nil,
    List.nil_append, ← recordedIn_eq, hdocuments]
  rfl

theorem mem_linksAfter {before ds : List Document} {l : Link} :
    l ∈ linksAfter resolver before ds ↔ ∃ earlier d later, ds = earlier ++ d :: later ∧
      (l ∈ documentLinks d ∨
        l ∈ methodLinks resolver (recordedBy (before ++ earlier ++ [d])) d) := by
  induction ds generalizing before with
  | nil => simp [linksAfter]
  | cons d ds ih =>
    rw [linksAfter, List.mem_append, List.mem_append, ih]
    constructor
    · rintro (hl | ⟨earlier, d', later, rfl, hl⟩)
      · exact ⟨[], d, ds, rfl, by simpa using hl⟩
      · exact ⟨d :: earlier, d', later, rfl, by simpa using hl⟩
    · rintro ⟨earlier, d', later, hds, hl⟩
      cases earlier with
      | nil =>
        obtain ⟨rfl, rfl⟩ := List.cons.inj hds
        exact .inl (by simpa using hl)
      | cons e earlier =>
        obtain ⟨rfl, rfl⟩ := List.cons.inj hds
        exact .inr ⟨earlier, d', later, rfl, by simpa using hl⟩

/-! ### Questions that are not about calls -/

def informationsOf (x : Index) : List SymbolInformation :=
  x.documents.flatMap (·.symbols) ++ x.externalSymbols

section
variable {β : Type} {pick : Link → Option β}

theorem filterMap_linksAfter (hcaller : ∀ s t site, pick (.caller s t site) = none)
    (hcallee : ∀ s t site, pick (.callee s t site) = none) (before ds : List Document) :
    (linksAfter resolver before ds).filterMap pick = (ds.flatMap documentLinks).filterMap pick := by
  have hmethods (recorded : String → List Reference) (d : Document) :
      (methodLinks resolver recorded d).filterMap pick = [] := by
    cases resolver with
    | none => rfl
    | some resolver =>
      refine List.filterMap_eq_nil_iff.2 fun l hl => ?_
      obtain ⟨method, -, hl⟩ := List.mem_flatMap.1 hl
      exact pick_of_mem_bodyLinks hcaller hcallee hl
  induction ds generalizing before with
  | nil => rfl
  | cons d ds ih =>
    rw [linksAfter, List.filterMap_append, List.filterMap_append, hmethods, List.append_nil, ih,
      List.flatMap_cons, List.filterMap_append]

theorem picked_of_build (hg : build resolver x = .ok g)
    (hcontains : ∀ file s, pick (.contains file s) = none)
    (hcaller : ∀ s t site, pick (.caller s t site) = none)
    (hcallee : ∀ s t site, pick (.callee s t site) = none) :
    g.picked pick =
      ((x.documents.flatMap documentLinks ++
        x.externalSymbols.flatMap informationLinks).filterMap pick).reverse := by
  rw [picked_eq_filterMap_lasting hcontains, lasting_of_build hg, List.filterMap_reverse,
    List.filterMap_append, filterMap_linksAfter hcaller hcallee, List.filterMap_append]

theorem picked_relationships_of_build (hg : build resolver x = .ok g)
    (hpick : ∀ l, l.isRelationship = false → pick l = none) :
    g.picked pick = (((informationsOf x).flatMap informationLinks).filterMap pick).reverse := by
  have hdocument (d : Document) :
      (documentLinks d).filterMap pick =
        d.symbols.flatMap fun i => (informationLinks i).filterMap pick := by
    have hreferences : ((referencesOf d).map fun r =>
        Link.reference r.symbol d.path r.site).filterMap pick = [] := by
      refine List.filterMap_eq_nil_iff.2 fun l hl => ?_
      obtain ⟨r, -, rfl⟩ := List.mem_map.1 hl
      exact hpick _ rfl
    rw [documentLinks, List.filterMap_append, hreferences, List.append_nil, List.filterMap_flatMap]
  rw [picked_of_build hg (fun _ _ => hpick _ rfl) (fun _ _ _ =>
    hpick _ rfl) (fun _ _ _ => hpick _ rfl)]
  simp only [informationsOf, List.flatMap_append, List.filterMap_append, List.filterMap_flatMap,
    List.flatMap_assoc, hdocument]

end

/-! ### Questions about calls alone -/

section
variable {β : Type} {pick : Link → Option β}

theorem filterMap_documentLinks
    (hrelationship : ∀ s target kinds, pick (.relationship s target kinds) = none)
    (hreference : ∀ s file site, pick (.reference s file site) = none) (d : Document) :
    (documentLinks d).filterMap pick = [] := by
  rw [documentLinks, List.filterMap_append, filterMap_informations hrelationship, List.nil_append,
    List.filterMap_map]
  exact List.filterMap_eq_nil_iff.2 fun r _ => hreference r.symbol d.path r.site

theorem picked_calls_of_build (hg : build resolver x = .ok g)
    (hcontains : ∀ file s, pick (.contains file s) = none)
    (hrelationship : ∀ s target kinds, pick (.relationship s target kinds) = none) :
    g.picked pick = ((linksAfter resolver [] x.documents).filterMap pick).reverse := by
  rw [picked_eq_filterMap_lasting hcontains, lasting_of_build hg, List.filterMap_reverse,
    List.filterMap_append, filterMap_informations hrelationship, List.append_nil]

end

/-! ### Documents with paths of their own -/

theorem filter_path_eq {ds : List Document} (hpaths : (ds.map (·.path)).Nodup) {d : Document}
    (hd : d ∈ ds) :
    (ds.filter fun e => e.path == d.path) = [d] := by
  induction ds with
  | nil => cases hd
  | cons e ds ih =>
    obtain ⟨hnot, hrest⟩ := List.nodup_cons.1 hpaths
    rcases List.mem_cons.1 hd with rfl | hd
    · have hnone : (ds.filter fun e => e.path == d.path) = [] :=
        List.filter_eq_nil_iff.2 fun e he hpath => hnot (List.mem_map.2 ⟨e, he, beq_iff_eq.1 hpath⟩)
      simp [hnone]
    · have hne : ¬e.path == d.path :=
        fun hpath => hnot (List.mem_map.2 ⟨d, hd, (beq_iff_eq.1 hpath).symm⟩)
      rw [List.filter_cons, if_neg hne, ih hrest hd]

theorem recordedBy_path {ds : List Document} (hpaths : (ds.map (·.path)).Nodup) {d : Document}
    (hd : d ∈ ds) :
    recordedBy ds d.path = (referencesOf d).reverse := by
  rw [recordedBy, filter_path_eq hpaths hd, List.flatMap_singleton]

theorem recordedBy_eq_nil {ds : List Document} {file : String} (h : ∀ d ∈ ds, d.path ≠ file) :
    recordedBy ds file = [] := by
  have hnone : (ds.filter fun d => d.path == file) = [] :=
    List.filter_eq_nil_iff.2 fun d hd hpath => h d hd (beq_iff_eq.1 hpath)
  rw [recordedBy, hnone]
  rfl

/-! ### Legible symbols -/

theorem eq_of_beq_of_symbol? {s t : Symbol} (hs : symbol? s.uri = some s)
    (ht : symbol? t.uri = some t)
    (h : s == t) : s = t := by
  rw [Symbol.beq_iff.1 h, ht] at hs
  exact (Option.some.inj hs).symm

theorem symbol?_of_mem_declared {d : Document} {s : Symbol} (hs : s ∈ declared d) :
    symbol? s.uri = some s := by
  obtain ⟨i, -, hi⟩ := List.mem_filterMap.1 hs
  exact symbol?_uri hi

theorem declares_iff_mem {d : Document} {m : Symbol} (hm : symbol? m.uri = some m) :
    declares d m ↔ m ∈ declared d := by
  rw [declares, List.any_eq_true]
  constructor
  · rintro ⟨s, hs, hsm⟩
    rwa [← eq_of_beq_of_symbol? (symbol?_of_mem_declared hs) hm hsm]
  · intro hs
    exact ⟨m, hs, BEq.refl m⟩

theorem symbol?_of_mem_referencesOf {d : Document} {r : Reference} (hr : r ∈ referencesOf d) :
    symbol? r.symbol.uri = some r.symbol := by
  obtain ⟨o, -, ho⟩ := List.mem_filterMap.1 hr
  unfold referenceOf? at ho
  split at ho
  · rename_i s range hs hrange
    cases ho
    exact symbol?_uri hs
  · cases ho

theorem symbol?_of_mem_recordedBy {ds : List Document} {file : String} {r : Reference}
    (hr : r ∈ recordedBy ds file) : symbol? r.symbol.uri = some r.symbol := by
  obtain ⟨d, -, hd⟩ := List.mem_flatMap.1 (List.mem_reverse.1 hr)
  exact symbol?_of_mem_referencesOf hd

theorem mem_of_mem_enclosed {recorded : List Reference} {span : SourceSpan} {r : Reference}
    (hr : r ∈ enclosed recorded span) : r ∈ recorded :=
  List.mem_of_mem_filter (List.mem_mergeSort.1 ((Ordered.squeeze_sublist _).subset hr))

end SymbolGraph
end CodeAtlas
