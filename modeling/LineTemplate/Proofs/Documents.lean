import LineTemplate.Proofs.Numerals

/-!
# Documents that are written and read

A document is written as tokens without spaces between them, and every character of a string is
written so that it is read back as itself (`string?_pieces`). A document whose numbers are whole and
not negative therefore has one raw form (`Document.raw?`), and its text is read as that form
(`ofText?_write`).

The proof has the two halves of the reader: the text is cut into the tokens of the raw form, and
these are read as the raw form. Each half is shown with a rest behind the document, which is what
carries the induction over items and members; it is arbitrary, but must not go on with a numeral.
-/

namespace LineTemplate.Json

/-! ## Strings -/

/-- What a character of a string is read as when it has been written: control characters without a
letter of their own come as units. -/
def piece (c : Char) : Piece :=
  if c.toNat < 0x20 ∧ c ∉ ['\x08', '\t', '\n', '\x0c', '\r'] then .unit c.toNat else .char c

def pieces (s : String) : List Piece :=
  s.toList.map piece

theorem hexDigit?_digitChar : ∀ n < 16, hexDigit? (Nat.digitChar n) = some n := by
  decide

theorem string?_escaped (c : Char) (rest : List Char) :
    string? (escaped c ++ rest) =
      (string? rest).map fun (pieces, rest) => (piece c :: pieces, rest) := by
  unfold escaped
  split
  case h_8 quote backslash backspace tab feed page ret =>
    have noLetter : c ∉ ['\x08', '\t', '\n', '\x0c', '\r'] := by
      simp only [List.mem_cons, List.not_mem_nil, or_false, not_or]
      exact ⟨backspace, tab, feed, page, ret⟩
    by_cases control : c.toNat < 0x20
    · have high := hexDigit?_digitChar (c.toNat / 16) (by omega)
      have low := hexDigit?_digitChar (c.toNat % 16) (by omega)
      have unit : hexUnit? '0' '0' (Nat.digitChar (c.toNat / 16)) (Nat.digitChar (c.toNat % 16)) =
          some c.toNat := by
        have zero : hexDigit? '0' = some 0 := rfl
        simp only [hexUnit?, zero, high, low, Option.bind_eq_bind, Option.bind_some,
          Option.pure_def]
        congr 1
        omega
      rw [if_pos control, piece, if_pos ⟨control, noLetter⟩]
      show string? ('\\' :: 'u' :: '0' :: '0' :: _ :: _ :: rest) = _
      cases h : string? rest <;> simp [string?, unit, h]
    · rw [if_neg control, piece, if_neg fun h => control h.1, List.singleton_append]
      rw [string?.eq_4 c rest quote (fun _ _ _ _ _ same _ => backslash same)
        (fun _ _ same _ => backslash same), if_neg control]
      cases string? rest <;> rfl
  all_goals
    show string? (_ :: _ :: rest) = _
    cases h : string? rest <;> simp [string?, escape?, h, piece]

theorem string?_pieces (cs rest : List Char) :
    string? (cs.flatMap escaped ++ '"' :: rest) = some (cs.map piece, rest) := by
  induction cs with
  | nil => rfl
  | cons c cs ih =>
    rw [List.flatMap_cons, List.append_assoc, string?_escaped, ih]
    rfl

/-- The pieces of a written string spell it. -/
theorem spelled_pieces (s : String) : spelled (pieces s) = some s := by
  have characters_map (cs : List Char) : characters (cs.map piece) = some cs := by
    induction cs with
    | nil => rfl
    | cons c cs ih =>
      rw [List.map_cons, piece]
      split
      next control =>
        have notTrailing : isTrailing c.toNat = false := by
          unfold isTrailing
          rw [decide_eq_false (by omega), Bool.false_and]
        have notLeading : isLeading c.toNat = false := by
          unfold isLeading
          rw [decide_eq_false (by omega), Bool.false_and]
        unfold characters
        simp [notTrailing, notLeading, ih, Char.ofNat_toNat]
      next => rw [characters, ih, Option.map_some]
  rw [spelled, pieces, characters_map, Option.map_some, String.ofList_toList]

/-! ## The raw form of a document -/

namespace Document

mutual

/-- What the text of a document is read as; nothing is said here of negative numbers and of
floating-point numbers. -/
def raw? : Document → Option Raw
  | .null => some .null
  | .bool b => some (.bool b)
  | .number (.natural n) => some (.number (wholeNumeral n.toNat))
  | .number _ => none
  | .string s => some (.string (pieces s))
  | .array items => (itemRaws? items).map .array
  | .object members => (memberRaws? members).map .object

/-- The raw forms of the items of an array. -/
def itemRaws? : List Document → Option (List Raw)
  | [] => some []
  | item :: items => (raw? item).bind fun first => (itemRaws? items).map (first :: ·)

/-- The raw forms of the members of an object. -/
def memberRaws? : List (String × Document) → Option (List (List Piece × Raw))
  | [] => some []
  | (name, content) :: members =>
    (raw? content).bind fun first => (memberRaws? members).map ((pieces name, first) :: ·)

end

end Document

namespace Raw

mutual

/-- The tokens of a raw document. -/
def tokens : Raw → List Token
  | .null => [.null]
  | .bool b => [.bool b]
  | .number numeral => [.number numeral]
  | .string pieces => [.string pieces]
  | .array items => .leftBracket :: (itemTokens items ++ [.rightBracket])
  | .object members => .leftBrace :: (memberTokens members ++ [.rightBrace])

/-- The tokens of the items of an array, with commas between the items. -/
def itemTokens : List Raw → List Token
  | [] => []
  | [item] => tokens item
  | item :: next :: items => tokens item ++ .comma :: itemTokens (next :: items)

/-- The tokens of the members of an object, with commas between the members. -/
def memberTokens : List (List Piece × Raw) → List Token
  | [] => []
  | [(name, content)] => .string name :: .colon :: tokens content
  | (name, content) :: next :: members =>
    .string name :: .colon :: (tokens content ++ .comma :: memberTokens (next :: members))

end

end Raw

/-! ## Cutting the text -/

/-- A text is cut into these tokens. -/
def Cuts (text : List Char) (tokens : List Token) : Prop :=
  tokens? (text.length + 1) text = some tokens

theorem tokens?_mono {bound more : Nat} (le : bound ≤ more) {text : List Char}
    {tokens : List Token} (cut : tokens? bound text = some tokens) :
    tokens? more text = some tokens := by
  induction bound generalizing more text tokens with
  | zero =>
    cases text with
    | nil => cases more with
      | zero => exact cut
      | succ more => exact cut
    | cons c cs => exact nomatch cut
  | succ bound ih =>
    obtain ⟨more, rfl⟩ := Nat.exists_eq_succ_of_ne_zero (by omega : more ≠ 0)
    unfold tokens? at cut ⊢
    split
    next empty => simpa [empty] using cut
    next c rest some =>
      simp only [some, Option.bind_eq_bind, Option.bind_eq_some_iff] at cut ⊢
      obtain ⟨⟨token, rest⟩, first, tokens, later, same⟩ := cut
      exact ⟨⟨token, rest⟩, first, tokens, ih (by omega) later, same⟩

theorem cuts_nil : Cuts [] [] := rfl

/-- One more token in front, written without a space. -/
theorem Cuts.cons {text rest : List Char} {token : Token} {tokens : List Token}
    (first : token? (text ++ rest) = some (token, rest))
    (tight : text.head?.map isSpace = some false) (later : Cuts rest tokens) :
    Cuts (text ++ rest) (token :: tokens) := by
  cases text with
  | nil => exact nomatch tight
  | cons c text =>
    have noSpace : ¬ isSpace c = true := by rw [Option.some.inj tight]; exact nofun
    have more : tokens? ((c :: text) ++ rest).length rest = some tokens :=
      tokens?_mono (by rw [List.length_append, List.length_cons]; omega) later
    unfold Cuts tokens?
    rw [List.cons_append, List.dropWhile_cons_of_neg noSpace]
    rw [List.cons_append] at first more
    simp only [first, more, Option.bind_eq_bind, Option.bind_some, Option.pure_def]

/-- One more token in front that is a single character. -/
theorem Cuts.sign {c : Char} {token : Token}
    (reads : ∀ rest, token? (c :: rest) = some (token, rest)) (tight : isSpace c = false)
    {rest : List Char} {tokens : List Token} (later : Cuts rest tokens) :
    Cuts (c :: rest) (token :: tokens) := by
  have single : [c].head?.map isSpace = some false := congrArg some tight
  exact Cuts.cons (reads rest) single later

theorem Cuts.string (s : String) {rest : List Char} {tokens : List Token}
    (later : Cuts rest tokens) : Cuts (quoted s ++ rest) (.string (pieces s) :: tokens) := by
  have reads : token? (quoted s ++ rest) = some (.string (pieces s), rest) := by
    have inner := string?_pieces s.toList rest
    rw [quoted, List.cons_append, List.append_assoc, List.singleton_append, token?, inner]
    rfl
  exact Cuts.cons reads rfl later

theorem Cuts.natural (n : UInt64) {rest : List Char} {tokens : List Token}
    (ends : EndsNumeral rest) (later : Cuts rest tokens) :
    Cuts (Nat.toDigits 10 n.toNat ++ rest) (.number (wholeNumeral n.toNat) :: tokens) := by
  obtain ⟨reads, tight⟩ := token?_toDigits n.toNat ends
  exact Cuts.cons reads tight later

theorem Cuts.colon {rest : List Char} {tokens : List Token} (later : Cuts rest tokens) :
    Cuts (':' :: rest) (.colon :: tokens) :=
  later.sign (fun _ => rfl) (by decide)

theorem Cuts.comma {rest : List Char} {tokens : List Token} (later : Cuts rest tokens) :
    Cuts (',' :: rest) (.comma :: tokens) :=
  later.sign (fun _ => rfl) (by decide)

mutual

/-- **The text of a document is cut into the tokens of its raw form**, whatever stands behind it. -/
theorem cuts_text (document : Document) {raw : Raw} (same : document.raw? = some raw)
    {rest : List Char} (ends : EndsNumeral rest) {tokens : List Token} (later : Cuts rest tokens) :
    Cuts (document.text ++ rest) (raw.tokens ++ tokens) := by
  match document with
  | .null =>
    obtain rfl := Option.some.inj same
    exact Cuts.cons rfl rfl later
  | .bool true =>
    obtain rfl := Option.some.inj same
    exact Cuts.cons rfl rfl later
  | .bool false =>
    obtain rfl := Option.some.inj same
    exact Cuts.cons rfl rfl later
  | .number (.natural n) =>
    obtain rfl := Option.some.inj same
    exact Cuts.natural n ends later
  | .string s =>
    obtain rfl := Option.some.inj same
    exact Cuts.string s later
  | .array items =>
    obtain ⟨raws, parts, rfl⟩ := Option.map_eq_some_iff.mp same
    have close : Cuts (']' :: rest) (.rightBracket :: tokens) :=
      later.sign (fun _ => rfl) (by decide)
    rw [Document.text, Raw.tokens, List.cons_append, List.cons_append, List.append_assoc,
      List.append_assoc]
    exact (cuts_items items parts (endsNumeral_cons (by decide) rest) close).sign (fun _ => rfl)
      (by decide)
  | .object members =>
    obtain ⟨raws, parts, rfl⟩ := Option.map_eq_some_iff.mp same
    have close : Cuts ('}' :: rest) (.rightBrace :: tokens) :=
      later.sign (fun _ => rfl) (by decide)
    rw [Document.text, Raw.tokens, List.cons_append, List.cons_append, List.append_assoc,
      List.append_assoc]
    exact (cuts_members members parts (endsNumeral_cons (by decide) rest) close).sign
      (fun _ => rfl) (by decide)

theorem cuts_items (items : List Document) {raws : List Raw}
    (same : Document.itemRaws? items = some raws) {rest : List Char} (ends : EndsNumeral rest)
    {tokens : List Token} (later : Cuts rest tokens) :
    Cuts (separated (Document.itemTexts items) ++ rest) (Raw.itemTokens raws ++ tokens) := by
  match items with
  | [] =>
    obtain rfl := Option.some.inj same
    exact later
  | [item] =>
    obtain ⟨first, here, same⟩ := Option.bind_eq_some_iff.mp same
    obtain rfl := Option.some.inj same
    exact cuts_text item here ends later
  | item :: next :: items =>
    obtain ⟨first, here, same⟩ := Option.bind_eq_some_iff.mp same
    obtain ⟨raws, parts, rfl⟩ := Option.map_eq_some_iff.mp same
    have behind := cuts_items (next :: items) parts ends later
    obtain ⟨second, there, parts⟩ := Option.bind_eq_some_iff.mp parts
    obtain ⟨raws, parts, rfl⟩ := Option.map_eq_some_iff.mp parts
    rw [Document.itemTexts, Document.itemTexts, separated, Raw.itemTokens, List.append_assoc,
      List.append_assoc]
    · exact cuts_text item here (endsNumeral_cons (by decide) _) behind.comma
    · exact nofun

theorem cuts_members (members : List (String × Document)) {raws : List (List Piece × Raw)}
    (same : Document.memberRaws? members = some raws) {rest : List Char} (ends : EndsNumeral rest)
    {tokens : List Token} (later : Cuts rest tokens) :
    Cuts (separated (Document.memberTexts members) ++ rest) (Raw.memberTokens raws ++ tokens) := by
  match members with
  | [] =>
    obtain rfl := Option.some.inj same
    exact later
  | [(name, content)] =>
    obtain ⟨first, here, same⟩ := Option.bind_eq_some_iff.mp same
    obtain rfl := Option.some.inj same
    have behind := ((cuts_text content here ends later).colon).string name
    rwa [← List.cons_append, ← List.append_assoc] at behind
  | (name, content) :: (other, inner) :: members =>
    obtain ⟨first, here, same⟩ := Option.bind_eq_some_iff.mp same
    obtain ⟨raws, parts, rfl⟩ := Option.map_eq_some_iff.mp same
    have behind := cuts_members ((other, inner) :: members) parts ends later
    obtain ⟨second, there, parts⟩ := Option.bind_eq_some_iff.mp parts
    obtain ⟨raws, parts, rfl⟩ := Option.map_eq_some_iff.mp parts
    have inside := cuts_text content here (endsNumeral_cons (by decide) _) behind.comma
    have whole := inside.colon.string name
    show Cuts ((quoted name ++ ':' :: content.text) ++ ',' :: separated _ ++ rest)
      (.string (pieces name) :: .colon :: (first.tokens ++ .comma :: Raw.memberTokens _) ++ tokens)
    simpa only [List.append_assoc, List.cons_append] using whole

end

/-! ## Reading the tokens -/

namespace Raw

theorem exists_tokens_eq_cons (raw : Raw) :
    ∃ first rest, raw.tokens = first :: rest ∧ first ≠ .rightBracket := by
  cases raw <;> exact ⟨_, _, rfl, nofun⟩

/-- The items of an array do not begin with its closing bracket. -/
theorem itemTokens_ne_close (item : Raw) (items : List Raw) (back rest : List Token) :
    itemTokens (item :: items) ++ back ≠ .rightBracket :: rest := by
  obtain ⟨first, more, same, ne⟩ := exists_tokens_eq_cons item
  cases items with
  | nil =>
    rw [itemTokens, same]
    exact fun h => ne (List.cons.inj h).1
  | cons next items =>
    rw [itemTokens, same]
    exact fun h => ne (List.cons.inj h).1

theorem memberTokens_ne_close (member : List Piece × Raw) (members : List (List Piece × Raw))
    (back rest : List Token) :
    memberTokens (member :: members) ++ back ≠ .rightBrace :: rest := by
  cases members <;> exact nofun

mutual

/-- **The tokens of a raw document are read as that document**, whatever stands behind them. -/
theorem value?_tokens (raw : Raw) {bound : Nat} (enough : raw.tokens.length ≤ bound)
    (rest : List Token) : value? bound (raw.tokens ++ rest) = some (raw, rest) := by
  have positive : bound ≠ 0 := by
    obtain ⟨first, more, same, -⟩ := exists_tokens_eq_cons raw
    rw [same, List.length_cons] at enough
    omega
  obtain ⟨bound, rfl⟩ := Nat.exists_eq_succ_of_ne_zero positive
  match raw with
  | .null => rfl
  | .bool b => rfl
  | .number numeral => rfl
  | .string pieces => rfl
  | .array [] => rfl
  | .array (item :: items) =>
    rw [tokens, List.length_cons, List.length_append, List.length_singleton] at enough
    have inner := items?_tokens (item :: items) (List.cons_ne_nil _ _)
      (Nat.le_of_succ_le_succ enough) rest
    rw [tokens, List.cons_append, List.append_assoc, List.singleton_append, value?.eq_6, inner]
    · rfl
    · exact fun _ => itemTokens_ne_close item items _ _
  | .object [] => rfl
  | .object (member :: members) =>
    rw [tokens, List.length_cons, List.length_append, List.length_singleton] at enough
    have inner := members?_tokens (member :: members) (List.cons_ne_nil _ _)
      (Nat.le_of_succ_le_succ enough) rest
    rw [tokens, List.cons_append, List.append_assoc, List.singleton_append, value?.eq_8, inner]
    · rfl
    · exact fun _ => memberTokens_ne_close member members _ _

theorem items?_tokens (items : List Raw) (nonempty : items ≠ []) {bound : Nat}
    (enough : (itemTokens items).length < bound) (rest : List Token) :
    items? bound (itemTokens items ++ .rightBracket :: rest) = some (items, rest) := by
  obtain ⟨bound, rfl⟩ := Nat.exists_eq_succ_of_ne_zero (Nat.ne_zero_of_lt enough)
  match items with
  | [] => exact (nonempty rfl).elim
  | [item] =>
    have first := value?_tokens item (Nat.le_of_lt_succ enough) (.rightBracket :: rest)
    rw [itemTokens, items?, first]
    rfl
  | item :: next :: items =>
    rw [itemTokens, List.length_append, List.length_cons] at enough
    have within : item.tokens.length ≤ bound := by omega
    have behind : (itemTokens (next :: items)).length < bound := by
      obtain ⟨token, more, same, -⟩ := exists_tokens_eq_cons item
      rw [same, List.length_cons] at enough
      omega
    rw [itemTokens, List.append_assoc, List.cons_append, items?, value?_tokens item within _]
    simp only [Option.bind_eq_bind, Option.bind_some, Option.pure_def,
      items?_tokens (next :: items) (List.cons_ne_nil _ _) behind rest]

theorem members?_tokens (members : List (List Piece × Raw)) (nonempty : members ≠ [])
    {bound : Nat} (enough : (memberTokens members).length < bound) (rest : List Token) :
    members? bound (memberTokens members ++ .rightBrace :: rest) = some (members, rest) := by
  obtain ⟨bound, rfl⟩ := Nat.exists_eq_succ_of_ne_zero (Nat.ne_zero_of_lt enough)
  match members with
  | [] => exact (nonempty rfl).elim
  | [(name, content)] =>
    rw [memberTokens, List.length_cons, List.length_cons] at enough
    have within : content.tokens.length ≤ bound := by omega
    rw [memberTokens, List.cons_append, List.cons_append, members?,
      value?_tokens content within (.rightBrace :: rest)]
    rfl
  | (name, content) :: (other, inner) :: members =>
    rw [memberTokens, List.length_cons, List.length_cons, List.length_append, List.length_cons]
      at enough
    have within : content.tokens.length ≤ bound := by omega
    have behind : (memberTokens ((other, inner) :: members)).length < bound := by omega
    rw [memberTokens, List.cons_append, List.cons_append, List.append_assoc, List.cons_append,
      members?, value?_tokens content within _]
    simp only [Option.bind_eq_bind, Option.bind_some, Option.pure_def,
      members?_tokens ((other, inner) :: members) (List.cons_ne_nil _ _) behind rest]

end

/-- **A written document is read as its raw form.** -/
theorem ofText?_write {document : Document} {raw : Raw} (same : document.raw? = some raw) :
    ofText? document.write = some raw := by
  have cut := cuts_text document same endsNumeral_nil cuts_nil
  rw [List.append_nil, List.append_nil] at cut
  have read := value?_tokens raw (Nat.le_refl _) []
  rw [List.append_nil] at read
  unfold Cuts at cut
  simp only [ofText?, Document.write, String.toList_ofList, cut, read, Option.bind_eq_bind,
    Option.bind_some, Option.pure_def]

end Raw

end LineTemplate.Json
