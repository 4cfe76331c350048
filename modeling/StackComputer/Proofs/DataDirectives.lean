import StackComputer.Proofs.DirectiveLine
import StackComputer.Proofs.LiteralReading

/-!
# Numbers in memory

DW, DD and DQ put a number of 16, 32 or 64 bits into memory, its high word
first. The number may be signed or unsigned, and is refused if it has too many
bits. DW takes a list, where every item has a word and an address of its own.
-/

namespace StackComputer

/-- The number that words make up, the high word first. -/
def Word.joined (ws : List Word) : Nat := ws.foldl (fun n w => n * 0x10000 + w.toNat) 0

namespace Assembler

open Text

inductive SignedText : Text → Int → Prop
  | plain {t : Text} {n : Nat} (h : LiteralText t n) : SignedText t n
  | minus {t : Text} {n : Nat} (h : LiteralText t n) : SignedText ('-' :: t) (-n)

/-- The number is signed or unsigned in a field. -/
def InField (width : Nat) (v : Int) : Prop := -(2 ^ (width - 1)) ≤ v ∧ v ≤ 2 ^ width - 1

instance (width : Nat) (v : Int) : Decidable (InField width v) :=
  inferInstanceAs (Decidable (_ ∧ _))

inductive NumberSize where
  | word
  | double
  | quad

namespace NumberSize

def name : NumberSize → Text
  | word => "DW".toList
  | double => "DD".toList
  | quad => "DQ".toList

def width : NumberSize → Nat
  | word => 16
  | double => 32
  | quad => 64

def words : (size : NumberSize) → BitVec size.width → List Word
  | word, x => [x]
  | double, x => [x.extractLsb' 16 16, x.extractLsb' 0 16]
  | quad, x => [x.extractLsb' 48 16, x.extractLsb' 32 16, x.extractLsb' 16 16, x.extractLsb' 0 16]

end NumberSize

/-- An item of a list: its own address, a number or a label. -/
inductive Item where
  | here
  | number (v : Int)
  | label (name : Text)

inductive ItemText : Text → Item → Prop
  | here : ItemText ['.'] .here
  | number {t : Text} {v : Int} (h : SignedText t v) : ItemText t (.number v)
  | label {t : Text} (h : SymbolText t) : ItemText t (.label t)

/-- What may stand between two commas: blanks, perhaps with an item among them. -/
inductive PieceText : Text → List Item → Prop
  | empty {t : Text} (h : ∀ c ∈ t, isBlank c = true) : PieceText t []
  | item {x t y : Text} {item : Item} (hx : ∀ c ∈ x, isBlank c = true) (h : ItemText t item)
      (hy : ∀ c ∈ y, isBlank c = true) : PieceText (x ++ t ++ y) [item]

inductive ListText : Text → List Item → Prop
  | single {t : Text} {items : List Item} (h : PieceText t items) : ListText t items
  | cons {t u : Text} {items others : List Item} (h : PieceText t items)
      (hrest : ListText u others) : ListText (t ++ ',' :: u) (items ++ others)

/-- The value of an item in the word at the address `here`. -/
def Item.value (s : Symbols) (here : Word) : Item → Option Int
  | .here => some here.toNat
  | number v => some v
  | label name => (s.lookup (upper name)).map fun a => (a.toNat : Int)

def ItemWord (s : Symbols) (here : Word) (item : Item) (w : Word) : Prop :=
  ∃ v, item.value s here = some v ∧ InField 16 v ∧ (w.toNat : Int) = v % 2 ^ 16

/-- The words of a list at the address `a`, each with the value its item has at
the address of that word. -/
def ItemWords (s : Symbols) (a : Word) (items : List Item) (ws : List Word) : Prop :=
  ws.length = items.length ∧ ∀ (i : Nat) (item : Item) (w : Word), items[i]? = some item →
    ws[i]? = some w → ItemWord s (location a i) item w

variable {s : Symbols} {a : Word} {t : Text} {v : Int} {item : Item} {items : List Item}

/-! ## Numbers of a width -/

theorem natCast_toNat_ofInt (width : Nat) (v : Int) :
    ((BitVec.ofInt width v).toNat : Int) = v % 2 ^ width := by
  have hnonneg : 0 ≤ v % 2 ^ width := Int.emod_nonneg v (by simp)
  simpa using hnonneg

theorem narrow_field {width : Nat} (hwidth : 0 < width) (v : Int) :
    (narrow width (-((1 <<< width) / 2 : Nat)) ((1 <<< width : Nat) - 1) v : Scan _) =
      if InField width v then .ok (BitVec.ofInt width v) else .error (.outOfRange v) := by
  obtain ⟨k, rfl⟩ := Nat.exists_eq_add_of_lt hwidth
  have hhalf : (1 <<< (0 + k + 1)) / 2 = 2 ^ k := by
    rw [Nat.one_shiftLeft, Nat.pow_succ]
    simp
  rw [narrow, hhalf, Nat.one_shiftLeft]
  simp [InField]

theorem evaluateIn_of_ok {width : Nat} (hwidth : 0 < width) (h : evaluate s a t = .ok v) :
    evaluateIn width s a t =
      if InField width v then .ok (BitVec.ofInt width v) else .error (.outOfRange v) := by
  rw [evaluateIn, h]
  exact narrow_field hwidth v

theorem evaluateIn_eq_ok_iff {width : Nat} (hwidth : 0 < width) {x : BitVec width} :
    evaluateIn width s a t = .ok x ↔
      ∃ v, evaluate s a t = .ok v ∧ InField width v ∧ (x.toNat : Int) = v % 2 ^ width := by
  constructor
  · intro hx
    obtain ⟨v, hv, -⟩ := bind_eq_ok.mp hx
    rw [evaluateIn_of_ok hwidth hv] at hx
    split at hx
    · next hfield =>
        cases hx
        exact ⟨v, hv, hfield, natCast_toNat_ofInt width v⟩
    · cases hx
  · rintro ⟨v, hv, hfield, hx⟩
    rw [evaluateIn_of_ok hwidth hv, if_pos hfield]
    refine congrArg _ (BitVec.eq_of_toNat_eq ?_)
    rw [← natCast_toNat_ofInt] at hx
    exact (Int.natCast_inj.mp hx).symm

theorem NumberSize.width_pos (size : NumberSize) : 0 < size.width := by
  cases size <;> decide

theorem NumberSize.length_words (size : NumberSize) (x : BitVec size.width) :
    (size.words x).length = size.width / 16 := by
  cases size with
  | word => rfl
  | double | quad => simp [words, width]

theorem joined_double (x : BitVec 32) :
    Word.joined [x.extractLsb' 16 16, x.extractLsb' 0 16] = x.toNat := by
  have hlt := x.isLt
  simp only [Word.joined, List.foldl_cons, List.foldl_nil, BitVec.extractLsb'_toNat,
    Nat.shiftRight_eq_div_pow]
  omega

theorem joined_quad (x : BitVec 64) :
    Word.joined [x.extractLsb' 48 16, x.extractLsb' 32 16, x.extractLsb' 16 16,
      x.extractLsb' 0 16] = x.toNat := by
  have hlt := x.isLt
  simp only [Word.joined, List.foldl_cons, List.foldl_nil, BitVec.extractLsb'_toNat,
    Nat.shiftRight_eq_div_pow]
  omega

theorem NumberSize.joined_words (size : NumberSize) (x : BitVec size.width) :
    Word.joined (size.words x) = x.toNat := by
  cases size with
  | word => exact Nat.zero_add _
  | double => exact joined_double x
  | quad => exact joined_quad x

/-! ## Items -/

/-- The characters of numbers, labels and `.`. -/
def isItemPart (c : Char) : Bool := isValuePart c || c == '-' || c == '.'

theorem isItemPart_of_isValuePart {c : Char} (h : isValuePart c = true) : isItemPart c = true := by
  simp [isItemPart, h]

theorem isBlank_of_isItemPart {c : Char} (h : isItemPart c = true) : isBlank c = false := by
  simp only [isItemPart, Bool.or_eq_true, beq_iff_eq] at h
  rcases h with (h | rfl) | rfl
  · exact isBlank_of_isValuePart h
  · rfl
  · rfl

theorem isQuiet_of_isItemPart {c : Char} (h : isItemPart c = true) : isQuiet c = true := by
  rw [isQuiet_iff]
  exact ⟨ne_of_class h (by decide), ne_of_class h (by decide), ne_of_class h (by decide)⟩

theorem isComma_of_isItemPart {c : Char} (h : isItemPart c = true) : (c == ',') = false :=
  beq_eq_false_iff_ne.mpr (ne_of_class h (by decide))

theorem SignedText.isItemPart (h : SignedText t v) : ∀ c ∈ t, isItemPart c = true := by
  cases h with
  | plain h => exact fun c hc => isItemPart_of_isValuePart (h.isValuePart c hc)
  | minus h =>
      exact List.forall_mem_cons.mpr
        ⟨rfl, fun c hc => isItemPart_of_isValuePart (h.isValuePart c hc)⟩

theorem ItemText.isItemPart (h : ItemText t item) : ∀ c ∈ t, isItemPart c = true := by
  cases h with
  | here => simp [Assembler.isItemPart]
  | number h => exact h.isItemPart
  | label h =>
      obtain ⟨-, -, -, -, hparts⟩ := isSymbol_cons (isSymbol_iff.mpr h)
      intro c hc
      simp [Assembler.isItemPart, isValuePart, hparts c hc]

theorem ItemText.tight (h : ItemText t item) : Tight t :=
  tight_of_solid fun c hc => isBlank_of_isItemPart (h.isItemPart c hc)

/-- Only a minus sign at its start tells a signed literal from others. -/
theorem signedLiteral?_of_isValuePart (h : ∀ c ∈ t, isValuePart c = true) :
    signedLiteral? t = (literal? t).map fun n => (n : Int) := by
  have htight := tight_of_solid fun c hc => isBlank_of_isValuePart (h c hc)
  rw [signedLiteral?, htight.trim_eq]
  split
  · next rest =>
      have hminus := h '-' List.mem_cons_self
      exact absurd hminus (by decide)
  · rfl

theorem SignedText.signedLiteral? (h : SignedText t v) : signedLiteral? t = some v := by
  rw [signedLiteral?_eq_some_iff, (ItemText.number h).tight.trim_eq]
  cases h with
  | plain h => exact .plain h
  | minus h => exact .negated (List.forall_mem_nil _) h

theorem ItemText.ne_nil (h : ItemText t item) : t ≠ [] := by
  cases h with
  | here => simp
  | number h =>
      rintro rfl
      have hnone : signedLiteral? [] = none := by decide
      rw [h.signedLiteral?] at hnone
      cases hnone
  | label h =>
      cases h
      simp

theorem SignedText.ne_dot (h : SignedText t v) : t ≠ ['.'] := by
  rintro rfl
  have hdot : Assembler.signedLiteral? ['.'] = none := by decide
  rw [h.signedLiteral?] at hdot
  cases hdot

theorem SignedText.evaluate (h : SignedText t v) (s : Symbols) (here : Word) :
    evaluate s here t = .ok v := by
  rw [Assembler.evaluate, (ItemText.number h).tight.trim_eq, if_neg h.ne_dot, h.signedLiteral?]

theorem ItemText.evaluate_eq_ok_iff (h : ItemText t item) (s : Symbols) (here : Word) :
    evaluate s here t = .ok v ↔ item.value s here = some v := by
  cases h with
  | here =>
      rw [evaluate, ItemText.here.tight.trim_eq, if_pos rfl]
      simp [Item.value]
  | number h => simp [h.evaluate, Item.value]
  | label h =>
      have hsymbol := isSymbol_iff.mpr h
      obtain ⟨-, -, -, -, hparts⟩ := isSymbol_cons hsymbol
      have hsigned : signedLiteral? t = none := by
        rw [signedLiteral?_of_isValuePart fun c hc => by simp [isValuePart, hparts c hc],
          literal?_symbol hsymbol]
        rfl
      have hdot : t ≠ ['.'] := by
        rintro rfl
        exact absurd hsymbol (by decide)
      rw [evaluate, (ItemText.label h).tight.trim_eq, if_neg hdot, hsigned]
      dsimp only
      rw [if_pos hsymbol, map_eq_ok, Symbols.find, Item.value]
      cases s.lookup (upper t) <;> simp

theorem evaluateIn_item (h : ItemText t item) (s : Symbols) (here w : Word) :
    evaluateIn 16 s here t = .ok w ↔ ItemWord s here item w := by
  simp only [evaluateIn_eq_ok_iff (show 0 < 16 by decide), h.evaluate_eq_ok_iff, ItemWord]

/-! ## Lists -/

theorem listValues_piece (h : ∀ c ∈ t, (c == ',') = false) :
    listValues t = [trim t].filter (!·.isEmpty) := by
  rw [listValues, splitAt_eq_singleton h, List.map_singleton]

theorem listValues_append (h : ∀ c ∈ t, (c == ',') = false) (u : Text) :
    listValues (t ++ ',' :: u) = listValues t ++ listValues u := by
  rw [listValues_piece h, listValues, splitAt_append h (beq_self_eq_true ','), List.map_cons,
    ← List.singleton_append, List.filter_append, listValues]

theorem PieceText.forall_mem {P : Char → Prop} (h : PieceText t items)
    (hblank : ∀ c, isBlank c = true → P c) (hitem : ∀ c, isItemPart c = true → P c) :
    ∀ c ∈ t, P c := by
  cases h with
  | empty h => exact fun c hc => hblank c (h c hc)
  | item hx h hy =>
      simp only [List.forall_mem_append]
      exact ⟨⟨fun c hc => hblank c (hx c hc), fun c hc => hitem c (h.isItemPart c hc)⟩,
        fun c hc => hblank c (hy c hc)⟩

theorem PieceText.noComma (h : PieceText t items) : ∀ c ∈ t, (c == ',') = false := by
  refine h.forall_mem ?_ ?_
  · exact fun c hc => beq_eq_false_iff_ne.mpr (ne_of_class hc rfl)
  · exact fun c hc => isComma_of_isItemPart hc

theorem PieceText.isQuiet (h : PieceText t items) : ∀ c ∈ t, isQuiet c = true := by
  refine h.forall_mem ?_ ?_
  · exact fun c hc => isQuiet_of_isBlank hc
  · exact fun c hc => isQuiet_of_isItemPart hc

theorem PieceText.listValues (h : PieceText t items) :
    List.Forall₂ ItemText (listValues t) items := by
  rw [listValues_piece h.noComma]
  cases h with
  | empty h => simp [trim_eq_nil h]
  | @item x t y item hx h hy =>
      rw [trim_eq_iff.mpr ⟨x, y, rfl, hx, hy, h.tight⟩]
      simpa [h.ne_nil] using h

theorem ListText.isQuiet (h : ListText t items) : ∀ c ∈ t, isQuiet c = true := by
  induction h with
  | single h => exact h.isQuiet
  | cons h _ ih =>
      exact List.forall_mem_append.mpr ⟨h.isQuiet, List.forall_mem_cons.mpr ⟨by decide, ih⟩⟩

theorem ListText.listValues (h : ListText t items) :
    List.Forall₂ ItemText (listValues t) items := by
  induction h with
  | single h => exact h.listValues
  | cons h _ ih =>
      rw [listValues_append h.noComma]
      exact List.rel_append h.listValues ih

theorem itemWords_cons {w : Word} {ws : List Word} (ha : a.address = a) :
    ItemWords s a (item :: items) (w :: ws) ↔
      ItemWord s a item w ∧ ItemWords s (location a 1) items ws := by
  have hnext : ∀ i, location (location a 1) i = location a (i + 1) := by
    intro i
    rw [location_location, Nat.add_comm]
  simp only [ItemWords, hnext]
  constructor
  · rintro ⟨hlength, hwords⟩
    have hfirst := hwords 0 item w rfl rfl
    rw [location_zero ha] at hfirst
    exact ⟨hfirst, by simpa using hlength, fun i item w hitem hw => hwords (i + 1) item w hitem hw⟩
  · rintro ⟨hfirst, hlength, hwords⟩
    refine ⟨by simpa using hlength, fun i item' w' hitem hw => ?_⟩
    cases i with
    | zero =>
        cases hitem
        cases hw
        rwa [location_zero ha]
    | succ i => exact hwords i item' w' hitem hw

/-- By induction on the list: the address moves on with every item. -/
theorem encodeValues_eq_ok_iff {texts : List Text} (h : List.Forall₂ ItemText texts items)
    (ha : a.address = a) (ws : List Word) :
    encodeValues s a texts = .ok ws ↔ ItemWords s a items ws := by
  induction h generalizing a ws with
  | nil => simp [encodeValues, ItemWords, @eq_comm _ [] ws]
  | @cons t item texts items h _ ih =>
      have hnext : (a + 1).address = location a 1 := address_add_ofNat a 1
      simp only [encodeValues, bind_eq_ok, hnext, ih (address_location a 1), evaluateIn_item h]
      constructor
      · rintro ⟨w, hw, ws', hws, ⟨⟩⟩
        exact (itemWords_cons ha).mpr ⟨hw, hws⟩
      · intro hws
        obtain ⟨w, ws', rfl⟩ := List.exists_cons_of_length_eq_add_one hws.1
        obtain ⟨hw, hws⟩ := (itemWords_cons ha).mp hws
        exact ⟨w, hw, ws', hws, rfl⟩

theorem NumberSize.exists_content (size : NumberSize) (h : SignedText t v) :
    ∃ c, content size.name t = .ok c ∧
      ∀ s here, c.encode s here = size.words <$> evaluateIn size.width s here t := by
  cases size with
  | word =>
      have hitem := ItemText.number h
      have hvalues : listValues t = [t] := by
        rw [listValues_piece fun c hc => isComma_of_isItemPart (hitem.isItemPart c hc)]
        simp [hitem.tight.trim_eq, hitem.ne_nil]
      refine ⟨.words [t], by rw [← hvalues]; rfl, fun s here => ?_⟩
      change encodeValues s here [t] = (fun w => [w]) <$> evaluateIn 16 s here t
      rw [encodeValues]
      cases evaluateIn 16 s here t <;> rfl
  | double => exact ⟨.double t, rfl, fun s here => rfl⟩
  | quad => exact ⟨.quad t, rfl, fun s here => rfl⟩

/-! ## Directives -/

section

variable {source line : Text} {before after : List Text} {l₀ l : Layout} {label : Option Text}

theorem number_directive (h : LineAmong source line before after l₀ l) (hnew : l₀.IsNew label)
    {size : NumberSize} (hline : DirectiveLine size.name t label line) (ht : SignedText t v) :
    (InField size.width v → ∃ ws, Emits source line l₀ l ws ∧ ws.length = size.width / 16 ∧
      (Word.joined ws : Int) = v % 2 ^ size.width) ∧
    (¬ InField size.width v → assemble source = .error ⟨before.length + 1, .outOfRange v⟩) := by
  obtain ⟨c, hc, hencode⟩ := size.exists_content ht
  have hquiet := fun d hd => isQuiet_of_isItemPart (ht.isItemPart d hd)
  obtain ⟨hok, herror⟩ := h.assemble_directive hnew hline (by cases size <;> decide)
    (by cases size <;> decide) (.quiet hquiet) hc
  rw [hencode, evaluateIn_of_ok size.width_pos (ht.evaluate _ _)] at hok herror
  constructor
  · intro hfield
    rw [if_pos hfield] at hok
    refine ⟨_, hok _ rfl, size.length_words _, ?_⟩
    rw [size.joined_words, natCast_toNat_ofInt]
  · intro hfield
    rw [if_neg hfield] at herror
    exact herror _ rfl

theorem list_directive (h : LineAmong source line before after l₀ l) (hnew : l₀.IsNew label)
    (hline : DirectiveLine "DW".toList t label line) (ht : ListText t items) :
    (∀ ws, ItemWords l.symbols l₀.counter items ws → Emits source line l₀ l ws) ∧
    ((¬ ∃ ws, ItemWords l.symbols l₀.counter items ws) →
      ∃ cause, assemble source = .error ⟨before.length + 1, cause⟩) := by
  obtain ⟨hok, herror⟩ := h.assemble_directive hnew hline (by decide) (by decide)
    (.quiet ht.isQuiet) (c := .words (listValues t)) rfl
  have haddress := (Layout.addressed_empty.scanLines h.scanned).counter
  have hencode := encodeValues_eq_ok_iff (s := l.symbols) ht.listValues haddress
  simp only [Content.encode] at hok herror
  constructor
  · exact fun ws hws => hok ws ((hencode ws).mpr hws)
  · intro hnone
    cases hcause : encodeValues l.symbols l₀.counter (listValues t) with
    | ok ws => exact absurd ⟨ws, (hencode ws).mp hcause⟩ hnone
    | error cause => exact ⟨cause, herror cause hcause⟩

/-- A number that fits is there modulo `2 ^ size.width`, and one that does not
is refused on its line. A list is there if all of its items are. -/
theorem data_directives (h : LineAmong source line before after l₀ l) (hnew : l₀.IsNew label) :
    (∀ (size : NumberSize) (t : Text) (v : Int), DirectiveLine size.name t label line →
      SignedText t v →
      (InField size.width v → ∃ ws, Emits source line l₀ l ws ∧ ws.length = size.width / 16 ∧
        (Word.joined ws : Int) = v % 2 ^ size.width) ∧
      (¬ InField size.width v → assemble source = .error ⟨before.length + 1, .outOfRange v⟩)) ∧
    ∀ (t : Text) (items : List Item), DirectiveLine "DW".toList t label line → ListText t items →
      (∀ ws, ItemWords l.symbols l₀.counter items ws → Emits source line l₀ l ws) ∧
      ((¬ ∃ ws, ItemWords l.symbols l₀.counter items ws) →
        ∃ cause, assemble source = .error ⟨before.length + 1, cause⟩) := by
  constructor
  · intro size t v hline ht
    exact number_directive h hnew hline ht
  · intro t items hline ht
    exact list_directive h hnew hline ht

end

/-- A list round the end of memory, with an empty item and a label of its own. -/
def itemLine : Text := "L: DW ., -1, , l,.".toList

def itemSource : Text := "ORG 77777\nL: DW ., -1, , l,.".toList

def itemStart : Layout := { counter := 0x7FFF, origin := some 0x7FFF }

def itemPlaced : Layout :=
  Layout.place { itemStart with symbols := [("L".toList, 0x7FFF)] } 2
    (.words (listValues "., -1, , l,.".toList))

theorem item_among : LineAmong itemSource itemLine ["ORG 77777".toList] [] itemStart itemPlaced := by
  have hline : itemStart.scanLine 2 itemLine = .ok itemPlaced := rfl
  refine .of_scanLine (by decide +kernel) rfl hline rfl ?_
  intro s hs hother
  rw [List.mem_singleton.mp hs] at hother
  exact absurd rfl hother

theorem item_list : ListText "., -1, , l,.".toList [.here, .number (-1), .label "l".toList, .here] := by
  have hblank : ∀ c ∈ [' '], isBlank c = true := List.forall_mem_singleton.mpr rfl
  have hnone : ∀ c ∈ ([] : Text), isBlank c = true := List.forall_mem_nil _
  have hone : LiteralText ['1'] 1 := .octal (.single ⟨by decide, rfl⟩) (by decide)
  have hlabel : SymbolText "l".toList := isSymbol_iff.mp rfl
  exact .cons (.item hnone .here hnone) (.cons (.item hblank (.number (.minus hone)) hnone)
    (.cons (.empty hblank) (.cons (.item hblank (.label hlabel) hnone)
      (.single (.item hnone .here hnone)))))

theorem item_words : ItemWords itemPlaced.symbols 0x7FFF
    [.here, .number (-1), .label "l".toList, .here] [0x7FFF, 0xFFFF, 0x7FFF, 2] := by
  have hword : ∀ (s : Symbols) (a : Word) (item : Item) (w : Word) (v : Int),
      item.value s a = some v → InField 16 v → (w.toNat : Int) = v % 2 ^ 16 →
      ItemWord s a item w := fun _ _ _ _ v hv hfield hw => ⟨v, hv, hfield, hw⟩
  refine (itemWords_cons rfl).mpr ⟨hword _ _ _ _ 0x7FFF rfl (by decide) rfl, ?_⟩
  refine (itemWords_cons rfl).mpr ⟨hword _ _ _ _ (-1) rfl (by decide) rfl, ?_⟩
  refine (itemWords_cons rfl).mpr ⟨hword _ _ _ _ 0x7FFF rfl (by decide) rfl, ?_⟩
  refine (itemWords_cons rfl).mpr ⟨hword _ _ _ _ 2 rfl (by decide) rfl, ?_⟩
  simp [ItemWords]

theorem item_directive :
    DirectiveLine "DW".toList "., -1, , l,.".toList (some "L".toList) itemLine := by
  have hname : SymbolText "L".toList := isSymbol_iff.mp rfl
  have hnone : ∀ c ∈ ([] : Text), isBlank c = true := List.forall_mem_nil _
  have hrest : IsTrimmed (' ' :: "., -1, , l,.".toList) "., -1, , l,.".toList :=
    trim_eq_iff.mp (by decide +kernel)
  have hline : itemLine = [] ++ ("L".toList ++ [] ++ [':']) ++ [' '] ++ "DW".toList ++
      ' ' :: "., -1, , l,.".toList ++ [] := by decide +kernel
  rw [hline]
  exact .mk hnone (.label hname hnone) (List.forall_mem_singleton.mpr rfl) rfl
    (startsBlank_cons rfl _) hrest .none

def numberLine (size : NumberSize) (t : Text) : Text := size.name ++ ' ' :: t

theorem numberLine_directive (size : NumberSize) (h : SignedText t v) :
    DirectiveLine size.name t none (numberLine size t) :=
  .bare (by cases size <;> rfl) (ItemText.number h).tight

theorem data_directives_across_end :
    Emits itemSource itemLine itemStart itemPlaced [0x7FFF, 0xFFFF, 0x7FFF, 2] ∧
    assemble (numberLine .quad "-#9223372036854775809".toList) =
      .error ⟨1, .outOfRange (-9223372036854775809)⟩ ∧
    ∃ line l ws, line = numberLine .double "-$80000000".toList ∧ Emits line line {} l ws ∧
      ws.length = 2 ∧ Word.joined ws = 2 ^ 31 := by
  have hlabel : itemStart.IsNew (some "L".toList) := fun _ _ => rfl
  have hnone : ({} : Layout).IsNew none := fun _ => nofun
  have hquad : SignedText "-#9223372036854775809".toList (-9223372036854775809) :=
    .minus (.decimal ((numeral?_eq_some_iff (by decide)).mp (by decide +kernel)) (by decide))
  have hdouble : SignedText "-$80000000".toList (-0x80000000) :=
    .minus (.hexadecimal ((numeral?_eq_some_iff (by decide)).mp (by decide +kernel)) (by decide))
  obtain ⟨-, hlist⟩ := data_directives item_among hlabel
  refine ⟨(hlist _ _ item_directive item_list).1 _ item_words, ?_, ?_⟩
  · have hlines : lines (numberLine .quad "-#9223372036854775809".toList) =
        [numberLine .quad "-#9223372036854775809".toList] := by decide +kernel
    obtain ⟨hnumber, -⟩ := data_directives (.alone hlines rfl) hnone
    exact (hnumber _ _ _ (numberLine_directive .quad hquad) hquad).2 (by decide)
  · have hlines : lines (numberLine .double "-$80000000".toList) =
        [numberLine .double "-$80000000".toList] := by decide +kernel
    obtain ⟨hnumber, -⟩ := data_directives (.alone hlines rfl) hnone
    obtain ⟨ws, hemits, hlength, hvalue⟩ :=
      (hnumber _ _ _ (numberLine_directive .double hdouble) hdouble).1 (by decide)
    exact ⟨_, _, ws, rfl, hemits, hlength, Int.natCast_inj.mp (hvalue.trans rfl)⟩

end Assembler

end StackComputer
