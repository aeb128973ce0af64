import JsonQuery.Proofs.Json.Escapes
import JsonQuery.Proofs.Token.Single

namespace JsonQuery

open JsonQuery.Parser

-- The text starts with the content between its marks, and that is so many characters.
def Encloses (mark : Char) (text : List Char) (content : String) (length : Nat) : Prop :=
  Paired mark content.toList ∧
    ∃ rest, text = (between mark content).toList ++ rest ∧ length = (between mark content).toList.length

theorem between_toList (mark : Char) (content : String) :
    (between mark content).toList = mark :: (escapeMark mark content.toList ++ [mark]) := by
  simp [between]

theorem readDelimited_encloses {mark : Char} (bar : mark ≠ '\\') (form : Enclosed) :
    readDelimited form mark 1 text = ⟨.ok content.toList,n⟩ ↔ Encloses mark (mark :: text) content n := by
  have size : (between mark content).toList.length = 1 + (escapeMark mark content.toList).length + 1 := by
    rw [between_toList]
    simp
    omega
  constructor
  · intro read
    obtain ⟨paired,rest,rfl⟩ := readDelimited_paired bar (congrArg Reading.outcome read)
    rw [readDelimited_escaped bar paired] at read
    refine ⟨paired,rest,by simp [between_toList],?_⟩
    rw [size]
    exact (congrArg Reading.length read).symm
  · rintro ⟨paired,rest,split,rfl⟩
    have split : text = escapeMark mark content.toList ++ mark :: rest := by
      simpa [between_toList] using split
    rw [split,readDelimited_escaped bar paired,size]

section
variable {accepts : List Char → Bool}

theorem readToken_rawString : readToken ('\'' :: text) accepts = ⟨.ok (.rawString s),n⟩ ↔
    readDelimited .rawString '\'' 1 text = ⟨.ok s.toList,n⟩ := by
  change (readDelimited .rawString '\'' 1 text).map _ = _ ↔ _
  rcases readDelimited .rawString '\'' 1 text with ⟨misread | content,length⟩
  · simp [Reading.map,Except.map]
  · simp [Reading.map,Except.map,← String.toList_inj]

-- The content of a literal is looked at only when its end was found.
theorem readToken_literal : readToken ('\x60' :: text) accepts = ⟨.ok (.literal s),n⟩ ↔
    readDelimited .literal '\x60' 1 text = ⟨.ok s.toList,n⟩ ∧ accepts s.toList = true := by
  change readLiteral text accepts = _ ↔ _
  unfold readLiteral
  rcases readDelimited .literal '\x60' 1 text with ⟨misread | content,length⟩
  · simp
  · by_cases valid : accepts content = true
    · simp only [valid,if_true,Reading.mk.injEq,Except.ok.injEq,TokenKind.literal.injEq,← String.toList_inj,
        String.toList_ofList]
      refine ⟨?_,fun read => read.1⟩
      rintro ⟨rfl,same⟩
      exact ⟨⟨rfl,same⟩,valid⟩
    · simp only [if_neg valid,Reading.fault]
      constructor
      · intro read
        cases read
      · rintro ⟨same,document⟩
        cases same
        exact absurd document valid

theorem readToken_between (paired : Paired '\x60' text.toList) (valid : accepts text.toList = true) :
    readToken (between '\x60' text).toList accepts =
      ⟨.ok (.literal text),(between '\x60' text).toList.length⟩ := by
  have encloses : Encloses '\x60' (between '\x60' text).toList text (between '\x60' text).toList.length :=
    ⟨paired,[],(List.append_nil _).symm,rfl⟩
  rw [between_toList] at encloses ⊢
  exact readToken_literal.mpr ⟨(readDelimited_encloses (by decide) .literal).mpr encloses,valid⟩

theorem Cursor.next_between (paired : Paired '\x60' text.toList) (valid : accepts text.toList = true) :
    ∃ first after, (Cursor.start (between '\x60' text)).next accepts = (.ok first,after) ∧
      first.kind = .literal text ∧ after.rest = [] := by
  have whole : (Cursor.start (between '\x60' text)).skipBlanks.rest = (between '\x60' text).toList := by
    rw [Cursor.skipBlanks_eq,Cursor.start,between_toList]
    rfl
  have read := readToken_between paired valid
  rw [← whole] at read
  refine ⟨_,_,Cursor.next_found _ (congrArg Reading.outcome read),rfl,?_⟩
  simp only [read,Cursor.advance,List.drop_length]

theorem TokenStream.ofText_between (paired : Paired '\x60' text.toList) (valid : accepts text.toList = true) :
    ∃ first ending, ofText (between '\x60' text) accepts = ⟨[first],.ok ending⟩ ∧
      first.kind = .literal text ∧ ending.kind = .ending := by
  obtain ⟨first,after,found,literal,none⟩ := Cursor.next_between paired valid
  obtain ⟨n,size⟩ : ∃ n, (Cursor.start (between '\x60' text)).rest.length = n + 1 := by
    rw [Cursor.start,between_toList]
    exact ⟨_,rfl⟩
  have blank : Blank after.rest := by simp [none,Blank]
  obtain ⟨tokens,place,ended⟩ := within_ended blank n accepts
  have real : first.kind ≠ .ending := by simp [literal]
  refine ⟨first,⟨.ending,"",place⟩,?_,literal,rfl⟩
  rw [ofText,size,within_found found real,tokens,ended]

theorem Query.compile_between (documents : ∀ text, accepts text = true → Json.IsDocument text)
    (valid : accepts text.toList = true) :
    Query.compile (between '\x60' text) accepts = .ok ⟨between '\x60' text,.literal text⟩ := by
  have paired : Paired '\x60' text.toList := (documents _ valid).paired ⟨by decide,by decide⟩
  obtain ⟨first,ending,tokens,literal,last⟩ := TokenStream.ofText_between paired valid
  have reads : Reads 0 (kinds [first]) (.literal text) [] := by
    simp only [kinds,List.map_cons,List.map_nil,literal]
    exact .expression .literal (.done (by simp [operator?]))
  have parsed : Expr.parse (between '\x60' text) accepts = .ok (.literal text) := by
    rw [Expr.parse,tokens]
    exact stream_complete last reads
  rw [Query.compile,parsed]
  rfl

end

-- A raw string or a literal is read from its content between the marks, each mark of the content
-- behind a backslash, and from nothing else; what can be between them are the paired texts. A
-- document is one of them, whoever reads documents, and is the literal of its text.
theorem Query.compile_enclosed :
    (∀ form mark, mark = '\'' ∨ mark = '\x60' → ∀ text (content : String) n,
      readDelimited form mark 1 text = ⟨.ok content.toList,n⟩ ↔ Encloses mark (mark :: text) content n) ∧
    (∀ accepts text s n, readToken ('\'' :: text) accepts = ⟨.ok (.rawString s),n⟩ ↔
      Encloses '\'' ('\'' :: text) s n) ∧
    (∀ accepts text s n, readToken ('\x60' :: text) accepts = ⟨.ok (.literal s),n⟩ ↔
      Encloses '\x60' ('\x60' :: text) s n ∧ accepts s.toList = true) ∧
    (∀ accepts, (∀ text, accepts text = true → Json.IsDocument text) → ∀ text : String,
      accepts text.toList = true →
        Query.compile (between '\x60' text) accepts = .ok ⟨between '\x60' text,.literal text⟩) ∧
    (∀ text, Json.accepts text = true → Json.IsDocument text) ∧
    ∀ text v, Json.read text = some v →
      Query.compile (between '\x60' text) = .ok ⟨between '\x60' text,.literal text⟩ := by
  refine ⟨?scan,?raw,?literal,?document,fun _ => Json.accepts_document,?read⟩
  case scan =>
      intro form mark kind text content n
      exact readDelimited_encloses (by rcases kind with rfl | rfl <;> decide) form
  case raw =>
      intro accepts text s n
      rw [readToken_rawString,readDelimited_encloses (by decide)]
  case literal =>
      intro accepts text s n
      rw [readToken_literal,readDelimited_encloses (by decide)]
  case document => exact fun accepts documents text valid => Query.compile_between documents valid
  case read =>
      intro text v read
      exact Query.compile_between (fun _ => Json.accepts_document) (Option.isSome_of_eq_some read)

-- A document with a bare mark and with escapes before another: the mark alone is escaped.
theorem Query.compile_enclosed_escapes :
    let text := "[\"\x60\\\\\x60\"]"
    let source := "\x60[\"\\\x60\\\\\\\x60\"]\x60"
    let v : Json := .array [.string "\x60\\\x60"]
    Json.read text = some v ∧ between '\x60' text = source ∧
      Query.compile source = .ok ⟨source,.literal text⟩ ∧
      readDelimited .literal '\x60' 1 source.toList.tail = ⟨.ok text.toList,12⟩ := by
  intro text source v
  obtain ⟨scans,_,_,compiles,documents,_⟩ := Query.compile_enclosed
  have listed : text.toList = ['[','"','\x60','\\','\\','\x60','"',']'] := by decide +kernel
  have read : Json.read text = some v := by
    rw [Json.read,listed]
    rfl
  have valid : Json.accepts text.toList = true := Option.isSome_of_eq_some read
  have whole : between '\x60' text = source := by decide +kernel
  have compiled := compiles Json.accepts documents text valid
  rw [whole] at compiled
  have encloses : Encloses '\x60' ('\x60' :: source.toList.tail) text 12 :=
    ⟨(documents _ valid).paired ⟨by decide,by decide⟩,[],by decide +kernel,by decide +kernel⟩
  exact ⟨read,whole,compiled,(scans .literal '\x60' (.inr rfl) _ _ _).mpr encloses⟩

end JsonQuery
