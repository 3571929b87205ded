import CodeAtlas.Json.Token

/-! The scanner on texts that tokens are written as. A number ends only at the character after it,
so between two tokens the scanner may still stand behind a number that could go on. -/

namespace CodeAtlas

namespace Json

namespace Scanner

/-- All of `found` has been read, up to the end of a number. -/
inductive HasFound : Scanner → List Token → Prop where
  | between {found : List Token} : HasFound ⟨.between, found⟩ found
  | number {phase : NumberPhase} {text : List Char} {found : List Token} (h : phase.complete) :
    HasFound ⟨.number phase text, found⟩ (.number text.reverse :: found)

theorem HasFound.finish {s : Scanner} {found : List Token} (h : s.HasFound found) :
    s.finish = found.reverse := by
  cases h with
  | between => rfl
  | number hcomplete => simp only [Scanner.finish, if_pos hcomplete]

end Scanner

namespace Token

open Scanner (HasFound)

/-! ### Punctuation -/

def isMark : Token → Bool
  | .openArray | .closeArray | .openObject | .closeObject | .comma | .colon => true
  | _ => false

theorem exists_write_mark {t : Token} (ht : t.isMark) :
    ∃ c, t.write = [c] ∧ (∀ found, (⟨.between, found⟩ : Scanner).start c = ⟨.between, t :: found⟩) ∧
      ∀ phase : NumberPhase, phase.next? c = none := by
  cases t <;> first
    | exact ⟨_, rfl, fun _ => rfl, fun phase => by cases phase <;> rfl⟩
    | cases ht

theorem foldl_write_mark {t : Token} (ht : t.isMark) {s : Scanner} {found : List Token}
    (hs : s.HasFound found) : t.write.foldl Scanner.step s = ⟨.between, t :: found⟩ := by
  obtain ⟨c, hwrite, hstart, hnext⟩ := exists_write_mark ht
  rw [hwrite, List.foldl_cons, List.foldl_nil]
  cases hs with
  | between => exact hstart found
  | number hcomplete =>
    -- the mark ends the number and is read from between the tokens
    simp only [Scanner.step, hnext, if_pos hcomplete]
    exact hstart _

/-! ### Strings -/

theorem hexValue?_digitChar {d : Nat} (hd : d < 16) :
    Text.hexValue? (Nat.digitChar d) = some d := by
  have hall : ∀ d < 16, Text.hexValue? (Nat.digitChar d) = some d := by decide
  exact hall d hd

theorem pushUnit_of_lt {code : Nat} (h : code < 0xD800) (pieces : List Piece) :
    Piece.pushUnit code pieces = .char (Char.ofNat code) :: pieces := by
  have hlow : Piece.isLow code = false := by simp [Piece.isLow]; omega
  have hhigh : Piece.isHigh code = false := by simp [Piece.isHigh]; omega
  simp [Piece.pushUnit, hlow, hhigh]

theorem foldl_unicode {code : Nat} (h : code < 0x100) (pieces : List Piece) (found : List Token) :
    ['\\', 'u', '0', '0', Nat.digitChar (code / 16), Nat.digitChar (code % 16)].foldl Scanner.step
      ⟨.string pieces, found⟩ = ⟨.string (.char (Char.ofNat code) :: pieces), found⟩ := by
  have hfirst := hexValue?_digitChar (d := code / 16) (by omega)
  have hsecond := hexValue?_digitChar (Nat.mod_lt code (by decide : 16 > 0))
  have hzero : Text.hexValue? '0' = some 0 := by decide
  have hcode : code / 16 * 16 + code % 16 = code := Nat.div_add_mod' code 16
  simp [Scanner.step, hzero, hfirst, hsecond, hcode, pushUnit_of_lt (show code < 0xD800 by omega)]

theorem foldl_escape (c : Char) (pieces : List Piece) (found : List Token) :
    (escape c).foldl Scanner.step ⟨.string pieces, found⟩ =
      ⟨.string (.char c :: pieces), found⟩ := by
  unfold escape
  split
  iterate 7 rfl
  -- neither of the named escapes: a control is spelled out, all else stands for itself
  rename_i hquote hbackslash _ _ _ _ _
  split
  · rename_i hcontrol
    rw [foldl_unicode (by omega), Char.ofNat_toNat]
  · rename_i hcontrol
    simp only [List.foldl_cons, List.foldl_nil, Scanner.step]
    rw [if_neg hquote, if_neg hbackslash, if_neg hcontrol]

theorem foldl_flatMap_escape (text : List Char) (pieces : List Piece) (found : List Token) :
    (text.flatMap escape).foldl Scanner.step ⟨.string pieces, found⟩ =
      ⟨.string ((text.map Piece.char).reverse ++ pieces), found⟩ := by
  induction text generalizing pieces with
  | nil => rfl
  | cons c text ih =>
    rw [List.flatMap_cons, List.foldl_append, foldl_escape, ih, List.map_cons, List.reverse_cons,
      List.append_assoc]
    rfl

theorem mapM_char?_map (text : List Char) : (text.map Piece.char).mapM Piece.char? = some text := by
  induction text with
  | nil => rfl
  | cons c text ih =>
    rw [List.map_cons, List.mapM_cons, ih]
    rfl

theorem foldl_write_string (text : List Char) (found : List Token) :
    (Token.string text).write.foldl Scanner.step ⟨.between, found⟩ =
      ⟨.between, .string text :: found⟩ := by
  have hopen : Scanner.step ⟨.between, found⟩ '"' = ⟨.string [], found⟩ := rfl
  have hclose : ∀ pieces, Scanner.step ⟨.string pieces, found⟩ '"' =
      (⟨.string pieces, found⟩ : Scanner).endString pieces := fun _ => rfl
  rw [Token.write, List.cons_append, List.foldl_cons, hopen, List.foldl_append,
    foldl_flatMap_escape, List.foldl_cons, List.foldl_nil, hclose, Scanner.endString,
    List.append_nil, List.reverse_reverse, mapM_char?_map]
  rfl

/-! ### Numbers -/

def numeralPhase? : List Char → Option NumberPhase
  | [] => none
  | c :: rest => do rest.foldlM NumberPhase.next? (← NumberPhase.first? c)

def isNumeral (text : List Char) : Bool := (numeralPhase? text).any NumberPhase.complete

theorem start_of_first? {c : Char} {phase : NumberPhase} (h : NumberPhase.first? c = some phase)
    (found : List Token) :
    (⟨.between, found⟩ : Scanner).start c = ⟨.number phase [c], found⟩ := by
  have hspace : isSpace c = false := by
    cases hs : isSpace c with
    | false => rfl
    | true =>
      simp only [isSpace, Bool.or_eq_true, decide_eq_true_eq] at hs
      rcases hs with ((rfl | rfl) | rfl) | rfl <;> cases h
  unfold Scanner.start
  rw [hspace, if_neg Bool.false_ne_true]
  split
  iterate 10 cases h
  rw [h]

theorem foldl_next? {rest text : List Char} {phase last : NumberPhase}
    (h : rest.foldlM NumberPhase.next? phase = some last) (found : List Token) :
    rest.foldl Scanner.step ⟨.number phase text, found⟩ =
      ⟨.number last (rest.reverse ++ text), found⟩ := by
  induction rest generalizing phase text with
  | nil => rw [← Option.some.inj h]; rfl
  | cons c rest ih =>
    obtain ⟨next, hnext, hrest⟩ := Option.bind_eq_some_iff.1 h
    have hstep : Scanner.step ⟨.number phase text, found⟩ c =
        ⟨.number next (c :: text), found⟩ := by
      simp only [Scanner.step, hnext]
    rw [List.foldl_cons, hstep, ih hrest, List.reverse_cons, List.append_assoc]
    rfl

theorem hasFound_number {text : List Char} (h : isNumeral text) (found : List Token) :
    (text.foldl Scanner.step ⟨.between, found⟩).HasFound (.number text :: found) := by
  obtain ⟨last, hlast, hcomplete⟩ := (Option.any_eq_true NumberPhase.complete _).1 h
  cases text with
  | nil => cases hlast
  | cons c rest =>
    obtain ⟨phase, hphase, hrest⟩ := Option.bind_eq_some_iff.1 hlast
    have hstart : Scanner.step ⟨.between, found⟩ c = ⟨.number phase [c], found⟩ :=
      start_of_first? hphase found
    rw [List.foldl_cons, hstart, foldl_next? hrest]
    have hfound : HasFound ⟨.number last (rest.reverse ++ [c]), found⟩
        (.number (rest.reverse ++ [c]).reverse :: found) := .number hcomplete
    rwa [List.reverse_append, List.reverse_reverse] at hfound

/-! ### Texts of several tokens -/

/-- The scanner goes from one token to the next over the text of the tokens and has found them. -/
def Scans (ts : List Token) : Prop :=
  ∀ found, ((ts.flatMap write).foldl Scanner.step ⟨.between, found⟩).HasFound (ts.reverse ++ found)

theorem scans_nil : Scans [] := fun _ => .between

theorem scans_null : Scans [.null] := fun _ => .between

theorem scans_bool (x : Bool) : Scans [.bool x] := by
  intro found
  cases x <;> exact .between

theorem scans_brokenString : Scans [.brokenString] := fun _ => .between

theorem scans_string (text : List Char) : Scans [.string text] := by
  intro found
  rw [List.flatMap_cons, List.flatMap_nil, List.append_nil, foldl_write_string]
  exact .between

theorem scans_number {text : List Char} (h : isNumeral text) : Scans [.number text] := by
  intro found
  rw [List.flatMap_cons, List.flatMap_nil, List.append_nil]
  exact hasFound_number h found

theorem Scans.append_mark {ts us : List Token} {t : Token} (hts : Scans ts) (ht : t.isMark)
    (hus : Scans us) : Scans (ts ++ t :: us) := by
  intro found
  rw [List.flatMap_append, List.foldl_append, List.flatMap_cons, List.foldl_append,
    foldl_write_mark ht (hts found), List.reverse_append, List.reverse_cons, List.append_assoc,
    List.append_assoc]
  exact hus (t :: (ts.reverse ++ found))

theorem Scans.scan {ts : List Token} (h : Scans ts) : scan (ts.flatMap write) = ts := by
  rw [Token.scan, (h []).finish, List.append_nil, List.reverse_reverse]

end Token

end Json

end CodeAtlas
