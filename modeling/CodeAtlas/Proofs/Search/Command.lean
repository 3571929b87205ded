import CodeAtlas.Proofs.Search.Exact

/-! Commands. What a command asks can be read in one way only, nothing of its text is lost on the
way, and it is answered as if it had been asked directly. -/

namespace CodeAtlas

inductive QueryKind.Named : QueryKind → String → Prop
  | references : Named .references "symbol_references"
  | rank : Named .rank "symbol_rank"
  | exact : Named .exact "exact"
  | source : Named .source "source"

def SearchQuery.HasText (q : SearchQuery) : Prop := ∃ c ∈ q.text.toList, ¬Text.isBlank c

/-- `type:`, a word, one space, and the text as it stands. -/
structure SearchQuery.IsCommand (command : String) (q : SearchQuery) : Prop where
  spelled : ∃ word, q.kind.Named word ∧ command = "type:" ++ word ++ " " ++ q.text
  hasText : q.HasText

namespace QueryKind

theorem named_iff {kind : QueryKind} {word : String} : kind.Named word ↔ kind.word = word := by
  constructor
  · intro h
    cases h <;> rfl
  · rintro rfl
    cases kind
    · exact .references
    · exact .rank
    · exact .exact
    · exact .source

theorem space_notMem_word (kind : QueryKind) : ' ' ∉ kind.word.toList := by
  cases kind <;> decide

theorem ofWord?_eq_some_iff {word : String} {kind : QueryKind} :
    ofWord? word = some kind ↔ kind.word = word := by
  constructor
  · intro h
    simpa using List.find?_some h
  · rintro rfl
    cases kind <;> decide

end QueryKind

namespace SearchQuery

/-! ### Reading a command -/

theorem after?_eq_some_iff {start text rest : List Char} :
    after? start text = some rest ↔ text = start ++ rest := by
  induction start generalizing text with
  | nil => simp [after?]
  | cons p start ih =>
    cases text with
    | nil => simp [after?]
    | cons c text =>
      rw [after?]
      by_cases hc : p = c
      · rw [if_pos hc, ih, hc, List.cons_append, List.cons_inj_right]
      · have hne : ¬c = p := fun h => hc h.symm
        simp [hc, hne]

theorem splitSpace?_eq_some_iff {body word text : List Char} :
    splitSpace? body = some (word, text) ↔ body = word ++ ' ' :: text ∧ ' ' ∉ word := by
  induction body generalizing word with
  | nil => simp [splitSpace?]
  | cons c body ih =>
    rw [splitSpace?]
    by_cases hc : c = ' '
    · cases word with
      | nil => simp [hc, eq_comm]
      | cons d word =>
        rw [if_pos hc]
        constructor
        · simp
        · rintro ⟨hbody, hword⟩
          have hd : c = d := (List.cons.inj hbody).1
          exact absurd (by simp [← hd, hc]) hword
    · rw [if_neg hc, Option.map_eq_some_iff]
      constructor
      · rintro ⟨⟨word', text'⟩, hsplit, hread⟩
        cases hread
        obtain ⟨rfl, hword⟩ := ih.1 hsplit
        exact ⟨rfl, by simpa [hword] using Ne.symm hc⟩
      · rintro ⟨hbody, hword⟩
        cases word with
        | nil => exact absurd (List.cons.inj hbody).1 hc
        | cons d word =>
          obtain ⟨rfl, hrest⟩ := List.cons.inj hbody
          exact ⟨(word, text), ih.2 ⟨hrest, fun h => hword (List.mem_cons_of_mem _ h)⟩, rfl⟩

theorem allBlank_eq_false_iff {text : List Char} :
    Text.allBlank text = false ↔ ∃ c ∈ text, ¬Text.isBlank c := by
  simp [Text.allBlank]

theorem toList_command_iff {command text : String} {word : List Char} :
    command.toList = mark.toList ++ (word ++ ' ' :: text.toList) ↔
      command = "type:" ++ String.ofList word ++ " " ++ text := by
  rw [← String.toList_inj]
  simp [mark]

theorem isCommand_of_parse {command : String} {q : SearchQuery} (h : parse command = .ok q) :
    IsCommand command q := by
  rw [parse] at h
  split at h
  · cases h
  · rename_i body hbody
    split at h
    · cases h
    · rename_i word text hsplit
      split at h
      · cases h
      · rename_i htext
        split at h
        · cases h
        · rename_i kind hkind
          cases h
          obtain ⟨rfl, -⟩ := splitSpace?_eq_some_iff.1 hsplit
          have hnamed := QueryKind.named_iff.2 (QueryKind.ofWord?_eq_some_iff.1 hkind)
          have hcommand := after?_eq_some_iff.1 hbody
          refine ⟨⟨_, hnamed, toList_command_iff.1 ?_⟩, ?_⟩
          · rw [hcommand, String.toList_ofList]
          · rw [HasText, String.toList_ofList]
            exact allBlank_eq_false_iff.1 (Bool.eq_false_iff.2 htext)

theorem IsCommand.parse_eq {command : String} {q : SearchQuery} (h : IsCommand command q) :
    parse command = .ok q := by
  obtain ⟨word, hnamed, hcommand⟩ := h.spelled
  obtain rfl := QueryKind.named_iff.1 hnamed
  have hbody : after? mark.toList command.toList =
      some (q.kind.word.toList ++ ' ' :: q.text.toList) := by
    rw [after?_eq_some_iff, toList_command_iff, String.ofList_toList]
    exact hcommand
  have hsplit : splitSpace? (q.kind.word.toList ++ ' ' :: q.text.toList) =
      some (q.kind.word.toList, q.text.toList) :=
    splitSpace?_eq_some_iff.2 ⟨rfl, q.kind.space_notMem_word⟩
  have hkind : QueryKind.ofWord? q.kind.word = some q.kind := QueryKind.ofWord?_eq_some_iff.2 rfl
  have hblank : Text.allBlank q.text.toList = false := allBlank_eq_false_iff.2 h.hasText
  simp [parse, hbody, hsplit, hblank, hkind]

theorem parse_eq_ok_iff {command : String} {q : SearchQuery} :
    parse command = .ok q ↔ IsCommand command q :=
  ⟨isCommand_of_parse, IsCommand.parse_eq⟩

theorem IsCommand.write_eq {command : String} {q : SearchQuery} (h : IsCommand command q) :
    q.write = command := by
  obtain ⟨word, hnamed, rfl⟩ := h.spelled
  rw [write, QueryKind.named_iff.1 hnamed, mark]

theorem HasText.isCommand {q : SearchQuery} (h : q.HasText) : IsCommand q.write q :=
  ⟨⟨q.kind.word, QueryKind.named_iff.2 rfl, rfl⟩, h⟩

theorem exists_parse_eq_error {command : String} (h : ∀ q, ¬IsCommand command q) :
    ∃ fault, parse command = .error fault := by
  cases hparse : parse command with
  | error fault => exact ⟨fault, rfl⟩
  | ok q => exact absurd (isCommand_of_parse hparse) (h q)

end SearchQuery

namespace SearchEngine
open SearchQuery

variable {m : Type → Type} [Monad m] {α κ : Type} [Scalar α]

/-! ### Answering a command -/

theorem dispatch_of_parse (e : SearchEngine m α κ) (store : VectorStore κ) {command : String}
    {q : SearchQuery}
    (h : parse command = .ok q) : e.dispatch store command = e.ask store q := by
  rw [dispatch, h]

theorem dispatch_of_parse_error (e : SearchEngine m α κ) (store : VectorStore κ) {command : String}
    {fault : QueryFault} (h : parse command = .error fault) :
    e.dispatch store command = return .error (.query fault) := by
  rw [dispatch, h]

/-- The commands about a text have the outcomes of the four searches for it, effects and errors
included. -/
structure Routes (e : SearchEngine m α κ) (store : VectorStore κ) (text : String) : Prop where
  references : e.dispatch store (write ⟨.references, text⟩) =
    return (e.references text).map .references
  rank : e.dispatch store (write ⟨.rank, text⟩) = do return (← e.rankSearch store text).map .ranking
  exact : e.dispatch store (write ⟨.exact, text⟩) = return (e.exactSearch text).map .exact
  source : e.dispatch store (write ⟨.source, text⟩) = return (e.source text).map .source

/-- The commands are what queries with a text are written as, each in one way, and each is answered
as the query is. Nothing else is a command, and what is none is refused. -/
theorem dispatch_unambiguous (e : SearchEngine m α κ) (store : VectorStore κ) :
    (∀ command q, parse command = .ok q ↔ IsCommand command q) ∧
      (∀ command q, parse command = .ok q → q.write = command) ∧
      (∀ q : SearchQuery, q.HasText → parse q.write = .ok q) ∧
      (∀ text, (∃ c ∈ text.toList, ¬Text.isBlank c) → e.Routes store text) ∧
      ∀ command, (∀ q, ¬IsCommand command q) → ∃ fault, parse command = .error fault ∧
        e.dispatch store command = return .error (.query fault) := by
  have hwrite (q : SearchQuery) (h : q.HasText) : parse q.write = .ok q := h.isCommand.parse_eq
  refine ⟨fun _ _ => parse_eq_ok_iff, fun _ _ h => (isCommand_of_parse h).write_eq, hwrite, ?_, ?_⟩
  · intro text htext
    have hroute (kind : QueryKind) : e.dispatch store (write ⟨kind, text⟩) =
        e.ask store ⟨kind, text⟩ :=
      dispatch_of_parse e store (hwrite ⟨kind, text⟩ htext)
    exact ⟨hroute .references, hroute .rank, hroute .exact, hroute .source⟩
  · intro command hnone
    obtain ⟨fault, hfault⟩ := exists_parse_eq_error hnone
    exact ⟨fault, hfault, dispatch_of_parse_error e store hfault⟩

theorem dispatch_unambiguous_listed :
    listingEngine.dispatch {} "type:exact  b" = (return .ok (.exact [("a.py", [1])])) ∧
      parse "type:exact  b" = .ok ⟨.exact, " b"⟩ ∧
      ∃ fault, listingEngine.dispatch {} "type:exact  " = return .error (.query fault) := by
  obtain ⟨hparse, -, hwrite, hroutes, hrefused⟩ := dispatch_unambiguous listingEngine {}
  have htext : ∃ c ∈ " b".toList, ¬Text.isBlank c := ⟨'b', by decide, by decide⟩
  have hnone : ∀ q, ¬IsCommand "type:exact  " q := by
    intro q hq
    have hread := (hparse _ q).2 hq
    have hblank : parse "type:exact  " = .error (.blankText "type:exact  ") := by rfl
    rw [hblank] at hread
    cases hread
  obtain ⟨fault, -, hfault⟩ := hrefused _ hnone
  exact ⟨(hroutes _ htext).exact, hwrite ⟨.exact, " b"⟩ htext, fault, hfault⟩

end SearchEngine
end CodeAtlas
