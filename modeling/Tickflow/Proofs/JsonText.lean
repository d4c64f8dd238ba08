import Tickflow.Proofs.DecimalText
/-! # Documents written and read back

The pretty text of a writable document (`Writable`) that nests less deeply than the reader
allows reads back as the same document, a number coming back as the decimal written beside the
double nearest to it (`ReadsBack`, `parseLoose_render`).
-/
namespace Tickflow

namespace Json.Reader

/-! ## Blanks and strings -/

theorem skipBlanks_append {pre : List Char} (h : ∀ c ∈ pre, isBlank c = true) (cs : List Char) :
    skipBlanks (pre ++ cs) = skipBlanks cs := by
  induction pre with
  | nil => rfl
  | cons c pre ih =>
    rw [List.cons_append,skipBlanks,if_pos (h c (by simp)),ih (fun c hc => h c (by simp [hc]))]

theorem skipBlanks_cons {c : Char} (h : isBlank c = false) (cs : List Char) :
    skipBlanks (c :: cs) = c :: cs := by
  rw [skipBlanks,if_neg (by simp [h])]

theorem hexValue_hexDigit : ∀ n < 16, hexValue (Json.hexDigit n) = some n := by decide

theorem readStringBody_escapeChar (loose : Bool) (c : Char) (r acc : List Char) :
    readStringBody loose (Json.escapeChar c ++ r) acc = readStringBody loose r (c :: acc) := by
  unfold Json.escapeChar
  split_ifs with h1 h2 h3 h4 h5 h6 h7 h8 <;> simp only [List.cons_append,List.nil_append]
  · rw [beq_iff_eq] at h1; subst h1; conv_lhs => rw [readStringBody]
  · rw [beq_iff_eq] at h2; subst h2; conv_lhs => rw [readStringBody]
  · rw [beq_iff_eq] at h3; subst h3; conv_lhs => rw [readStringBody]
  · rw [beq_iff_eq] at h4; subst h4; conv_lhs => rw [readStringBody]
  · rw [beq_iff_eq] at h5; subst h5; conv_lhs => rw [readStringBody]
  · rw [beq_iff_eq] at h6; subst h6; conv_lhs => rw [readStringBody]
  · rw [beq_iff_eq] at h7; subst h7; conv_lhs => rw [readStringBody]
  · have hx : hex4 '0' '0' (Json.hexDigit (c.toNat / 16)) (Json.hexDigit (c.toNat % 16)) =
        some c.toNat := by
      have h0 : hexValue '0' = some 0 := by decide
      simp only [hex4,h0,hexValue_hexDigit _ (show c.toNat / 16 < 16 by omega),
        hexValue_hexDigit _ (show c.toNat % 16 < 16 by omega),Option.some.injEq]
      omega
    conv_lhs => rw [readStringBody]
    simp only [hx]
    rw [if_neg (by omega),if_neg (by omega),Char.ofNat_toNat]
  · rw [readStringBody.eq_14 _ _ _ _ (by simpa using h1) (by simpa using h2),if_neg h8]

theorem readStringBody_escape (loose : Bool) (s r : List Char) (acc : List Char) :
    readStringBody loose (s.flatMap Json.escapeChar ++ '"' :: r) acc =
      .ok (some (String.ofList (acc.reverse ++ s)),r) := by
  induction s generalizing acc with
  | nil => rw [List.flatMap_nil,List.nil_append,readStringBody,List.append_nil]
  | cons c s ih =>
    rw [List.flatMap_cons,List.append_assoc,readStringBody_escapeChar,ih]
    simp

theorem quote_toList (s : String) :
    (Json.quote s).toList = '"' :: (s.toList.flatMap Json.escapeChar ++ ['"']) := by
  simp [Json.quote]

/-! ## The first character decides -/

section Dispatch

variable {loose : Bool} {fuel lim : Nat}

theorem readValue_blanks {pre : List Char} (hpre : ∀ c ∈ pre, isBlank c = true) (cs : List Char) :
    readValue loose (fuel + 1) lim (pre ++ cs) = readValue loose (fuel + 1) lim cs := by
  rw [readValue,readValue,skipBlanks_append hpre]

theorem readValue_quote (rest : List Char) :
    readValue loose (fuel + 1) lim ('"' :: rest) =
      (readStringBody loose rest []).map fun (s,r) => (stringValue s,r) := by
  rw [readValue,skipBlanks_cons (by decide)]
  rfl

theorem readValue_true (rest : List Char) :
    readValue loose (fuel + 1) lim ("true".toList ++ rest) = .ok (.bool true,rest) := by
  rw [readValue,show "true".toList = ['t','r','u','e'] from rfl,List.cons_append,
    skipBlanks_cons (by decide)]
  simp [readWord]

theorem readValue_false (rest : List Char) :
    readValue loose (fuel + 1) lim ("false".toList ++ rest) = .ok (.bool false,rest) := by
  rw [readValue,show "false".toList = ['f','a','l','s','e'] from rfl,List.cons_append,
    skipBlanks_cons (by decide)]
  simp [readWord]

theorem readValue_null (rest : List Char) :
    readValue loose (fuel + 1) lim ("null".toList ++ rest) = .ok (.null,rest) := by
  rw [readValue,show "null".toList = ['n','u','l','l'] from rfl,List.cons_append,
    skipBlanks_cons (by decide)]
  simp [readWord]

theorem ne_of_startsNumber {c : Char} (hc : c = '-' ∨ c.isDigit = true) :
    ∀ d ∈ ['"','[','\x7b','t','f','n',' ','\n','\t','\r',']','\x7d'], c ≠ d := by
  rcases hc with rfl | hd
  · simp
  · have hnd : ∀ d ∈ ['"','[','\x7b','t','f','n',' ','\n','\t','\r',']','\x7d'],
        d.isDigit = false := by
      simp [Char.isDigit]
    rintro d hmem rfl
    simp [hnd c hmem] at hd

theorem readValue_number {c : Char} (hc : c = '-' ∨ c.isDigit = true) (rest : List Char) :
    readValue loose (fuel + 1) lim (c :: rest) = readNumber loose (c :: rest) := by
  have hne := ne_of_startsNumber hc
  simp only [List.mem_cons,List.not_mem_nil,forall_eq_or_imp,forall_eq,or_false] at hne
  obtain ⟨h1,h2,h3,h4,h5,h6,h7,h8,h9,h10,-,-⟩ := hne
  have hblank : isBlank c = false := by simp [isBlank,h7,h8,h9,h10]
  rw [readValue,skipBlanks_cons hblank]
  simp [h1,h2,h3,h4,h5,h6,hc]

theorem readValue_numberText {t : List Char} (ht : ∃ c cs, t = c :: cs ∧ (c = '-' ∨ c.isDigit = true))
    (rest : List Char) : readValue loose (fuel + 1) lim (t ++ rest) = readNumber loose (t ++ rest) := by
  obtain ⟨c,cs,rfl,hc⟩ := ht
  exact readValue_number hc (cs ++ rest)

theorem opens_of_loose_or_room (hopen : loose = true ∨ 2 ≤ lim) : (decide (lim ≤ 1) && !loose) = false := by
  rcases hopen with rfl | hlim
  · exact Bool.and_false _
  · simp only [decide_eq_false (show ¬lim ≤ 1 by omega),Bool.false_and]

theorem readValue_array_nil (hopen : loose = true ∨ 2 ≤ lim) (rest : List Char) :
    readValue loose (fuel + 1) lim ('[' :: ']' :: rest) = nested loose (decide (lim ≤ 1)) (.ok (.array [],rest)) := by
  rw [readValue,skipBlanks_cons (by decide)]
  simp [skipBlanks_cons,isBlank,opens_of_loose_or_room hopen]

theorem readValue_array (hopen : loose = true ∨ 2 ≤ lim) {rest : List Char} (h : ∀ r, skipBlanks rest ≠ ']' :: r) :
    readValue loose (fuel + 1) lim ('[' :: rest) = nested loose (decide (lim ≤ 1)) (readItems loose fuel (lim - 1) [] rest) := by
  rw [readValue,skipBlanks_cons (by decide)]
  simp only [beq_self_eq_true,reduceIte,opens_of_loose_or_room hopen,Bool.false_eq_true]
  split <;> simp_all

theorem readValue_object_nil (hopen : loose = true ∨ 2 ≤ lim) (rest : List Char) :
    readValue loose (fuel + 1) lim ('\x7b' :: '\x7d' :: rest) = nested loose (decide (lim ≤ 1)) (.ok (.object [],rest)) := by
  rw [readValue,skipBlanks_cons (by decide)]
  simp [skipBlanks_cons,isBlank,opens_of_loose_or_room hopen]

theorem readValue_object (hopen : loose = true ∨ 2 ≤ lim) {rest : List Char} (h : ∀ r, skipBlanks rest ≠ '\x7d' :: r) :
    readValue loose (fuel + 1) lim ('\x7b' :: rest) =
      nested loose (decide (lim ≤ 1)) (readMembers loose fuel (lim - 1) [] rest) := by
  rw [readValue,skipBlanks_cons (by decide)]
  simp only [show ('\x7b' == '"') = false from rfl,show ('\x7b' == '[') = false from rfl,
    beq_self_eq_true,reduceIte,opens_of_loose_or_room hopen,Bool.false_eq_true]

end Dispatch

/-! ## Items and members -/

section Lists

variable {loose : Bool} {fuel lim : Nat} {v : Json} {cs rest r : List Char}

theorem readItems_comma (hv : readValue loose fuel lim cs = .ok (v,rest)) (hr : skipBlanks rest = ',' :: r)
    (acc : List Json) : readItems loose (fuel + 1) lim acc cs = readItems loose fuel lim (v :: acc) r := by
  rw [readItems,hv]
  simp only [hr]

theorem readItems_close (hv : readValue loose fuel lim cs = .ok (v,rest)) (hr : skipBlanks rest = ']' :: r)
    (acc : List Json) : readItems loose (fuel + 1) lim acc cs = .ok (.array (v :: acc).reverse,r) := by
  rw [readItems,hv]
  simp only [hr]

theorem readStringBody_key (key : String) (cs : List Char) :
    readStringBody false ((Json.quote key).toList.tail ++ cs) [] = .ok (some key,cs) := by
  rw [quote_toList,List.tail_cons,List.append_assoc,List.singleton_append,readStringBody_escape]
  simp

theorem readMembers_comma {pre : List Char} (hpre : ∀ c ∈ pre, isBlank c = true) (key : String)
    (hv : readValue loose fuel lim cs = .ok (v,rest)) (hr : skipBlanks rest = ',' :: r)
    (acc : List (String × Json)) :
    readMembers loose (fuel + 1) lim acc (pre ++ (Json.quote key).toList ++ ':' :: cs) =
      readMembers loose fuel lim ((key,v) :: acc) r := by
  have hkey := readStringBody_key key (':' :: cs)
  rw [quote_toList] at hkey ⊢
  rw [readMembers,List.append_assoc,skipBlanks_append hpre,List.cons_append,skipBlanks_cons (by decide)]
  simp only [List.tail_cons] at hkey
  simp only [hkey,skipBlanks_cons (show isBlank ':' = false by decide),hv,hr]

theorem readMembers_close {pre : List Char} (hpre : ∀ c ∈ pre, isBlank c = true) (key : String)
    (hv : readValue loose fuel lim cs = .ok (v,rest)) (hr : skipBlanks rest = '\x7d' :: r)
    (acc : List (String × Json)) :
    readMembers loose (fuel + 1) lim acc (pre ++ (Json.quote key).toList ++ ':' :: cs) =
      .ok (.object ((key,v) :: acc).reverse,r) := by
  have hkey := readStringBody_key key (':' :: cs)
  rw [quote_toList] at hkey ⊢
  rw [readMembers,List.append_assoc,skipBlanks_append hpre,List.cons_append,skipBlanks_cons (by decide)]
  simp only [List.tail_cons] at hkey
  simp only [hkey,skipBlanks_cons (show isBlank ':' = false by decide),hv,hr]

end Lists

end Json.Reader

/-! ## Documents that read back -/

namespace Json

mutual

/-- How deep arrays and objects nest in a document: not at all in a scalar, one level more in a
container than in its deepest item or member. -/
def depth : Json → Nat
  | .array items => depthItems items + 1
  | .object members => depthMembers members + 1
  | _ => 0

def depthItems : List Json → Nat
  | [] => 0
  | j :: rest => max (depth j) (depthItems rest)

def depthMembers : List (String × Json) → Nat
  | [] => 0
  | (_,j) :: rest => max (depth j) (depthMembers rest)

end

mutual

/-- Whether the text the writer gives a document reads back: every number finite, every
integer in the reader's range, and no unreadable leaf. -/
def Writable : Json → Prop
  | .int n => -((Nat.pow 2 63 : Nat) : Int) ≤ n ∧ n < ((Nat.pow 2 64 : Nat) : Int)
  | .float x => x.isFinite = true
  | .decimal _ x => x.isFinite = true
  | .single x => x.isFinite = true
  | .unreadable _ => False
  | .array items => WritableItems items
  | .object members => WritableMembers members
  | _ => True

def WritableItems : List Json → Prop
  | [] => True
  | j :: rest => Writable j ∧ WritableItems rest

def WritableMembers : List (String × Json) → Prop
  | [] => True
  | (_,j) :: rest => Writable j ∧ WritableMembers rest

end

mutual

/-- What a loose reading with `lim` levels of nesting left gives back for the text of a
document: a double as the decimal written beside that very double, a single-precision number
as a decimal that rounds to it beside the nearest double, a container where no level is left
as an unreadable leaf, and everything else as written. -/
def ReadsBack : Nat → Json → Json → Prop
  | _,.null,j' => j' = .null
  | _,.bool b,j' => j' = .bool b
  | _,.int n,j' => j' = .int n
  | _,.float x,j' => ∃ d,j' = .decimal d x
  | _,.decimal _ x,j' => ∃ d,j' = .decimal d x
  | _,.single x,j' => ∃ d y,j' = .decimal d y ∧ Binary32.ofDecimal? d.negative d.digits d.exponent = some x
  | _,.string s,j' => j' = .string s
  | lim,.array items,j' =>
    if lim ≤ 1 then j' = .unreadable .tooDeep else ∃ items',j' = .array items' ∧ ReadsBackItems (lim - 1) items items'
  | lim,.object members,j' =>
    if lim ≤ 1 then j' = .unreadable .tooDeep
    else ∃ members',j' = .object members' ∧ ReadsBackMembers (lim - 1) members members'
  | _,.unreadable _,j' => j' = .null

def ReadsBackItems : Nat → List Json → List Json → Prop
  | _,[],l' => l' = []
  | lim,j :: rest,l' => ∃ j' rest',l' = j' :: rest' ∧ ReadsBack lim j j' ∧ ReadsBackItems lim rest rest'

def ReadsBackMembers : Nat → List (String × Json) → List (String × Json) → Prop
  | _,[],l' => l' = []
  | lim,(k,j) :: rest,l' =>
    ∃ j' rest',l' = (k,j') :: rest' ∧ ReadsBack lim j j' ∧ ReadsBackMembers lim rest rest'

end

open Reader

/-! ## The written text, piece by piece -/

theorem toList_repeatChar (c : Char) (n : Nat) : (repeatChar c n).toList = List.replicate n c := by
  simp [repeatChar]

theorem pretty_array {items : List Json} (h : items ≠ []) (indent : Nat) :
    (pretty indent (.array items)).toList =
      '[' :: '\n' :: ((prettyItems (indent + 1) items).toList ++ '\n' :: List.replicate (2 * indent) ' ' ++ [']']) := by
  rw [pretty.eq_3 indent items h]
  simp [toList_repeatChar]

theorem pretty_object {members : List (String × Json)} (h : members ≠ []) (indent : Nat) :
    (pretty indent (.object members)).toList =
      '\x7b' :: '\n' :: ((prettyMembers (indent + 1) members).toList ++ '\n' :: List.replicate (2 * indent) ' ' ++ ['\x7d']) := by
  rw [pretty.eq_4 indent members h]
  simp [toList_repeatChar]

theorem prettyItems_singleton (indent : Nat) (j : Json) :
    (prettyItems indent [j]).toList = List.replicate (2 * indent) ' ' ++ (pretty indent j).toList := by
  simp [prettyItems,toList_repeatChar]

theorem prettyItems_cons_cons (indent : Nat) (j k : Json) (rest : List Json) :
    (prettyItems indent (j :: k :: rest)).toList =
      List.replicate (2 * indent) ' ' ++ (pretty indent j).toList ++ ',' :: '\n' :: (prettyItems indent (k :: rest)).toList := by
  rw [prettyItems.eq_3 indent j (k :: rest) (List.cons_ne_nil k rest)]
  simp [toList_repeatChar]

theorem prettyMembers_singleton (indent : Nat) (key : String) (j : Json) :
    (prettyMembers indent [(key,j)]).toList =
      List.replicate (2 * indent) ' ' ++ (quote key).toList ++ ':' :: ' ' :: (pretty indent j).toList := by
  simp [prettyMembers,toList_repeatChar]

theorem prettyMembers_cons_cons (indent : Nat) (key : String) (j : Json) (m : String × Json)
    (rest : List (String × Json)) :
    (prettyMembers indent ((key,j) :: m :: rest)).toList =
      List.replicate (2 * indent) ' ' ++ (quote key).toList ++ ':' :: ' ' :: (pretty indent j).toList ++
        ',' :: '\n' :: (prettyMembers indent (m :: rest)).toList := by
  rw [prettyMembers.eq_3 indent key j (m :: rest) (List.cons_ne_nil m rest)]
  simp [toList_repeatChar]

theorem startsNumber_opens {c : Char} (hc : c = '-' ∨ c.isDigit = true) :
    isBlank c = false ∧ c ≠ ']' ∧ c ≠ '\x7d' := by
  have hne := ne_of_startsNumber hc
  simp only [List.mem_cons,List.not_mem_nil,forall_eq_or_imp,forall_eq,or_false] at hne
  obtain ⟨-,-,-,-,-,-,h7,h8,h9,h10,h11,h12⟩ := hne
  exact ⟨by simp [isBlank,h7,h8,h9,h10],h11,h12⟩

theorem intText_head (n : Int) : ∃ c cs, (intText n).toList = c :: cs ∧ (c = '-' ∨ c.isDigit = true) := by
  obtain ⟨d,ds,hdd⟩ := List.exists_cons_of_ne_nil (Nat.toDigits_ne_nil (n := n.natAbs) (b := 10))
  have hd : d.isDigit = true := isDigit_of_mem_toDigits (n := n.natAbs) (by simp [hdd])
  unfold intText
  split
  · exact ⟨'-',Nat.toDigits 10 n.natAbs,by simp,Or.inl rfl⟩
  · exact ⟨d,ds,by simp [hdd],Or.inr hd⟩

theorem doubleText_head {x : Binary64} (hx : x.isFinite = true) :
    ∃ c cs, (doubleText x).toList = c :: cs ∧ (c = '-' ∨ c.isDigit = true) := by
  obtain ⟨d,hd⟩ := Binary64.shortest?_of_isFinite hx .even
  rw [doubleText,hd]
  exact render_head _ d

theorem singleText_head {x : Binary32} (hx : x.isFinite = true) :
    ∃ c cs, (singleText x).toList = c :: cs ∧ (c = '-' ∨ c.isDigit = true) := by
  obtain ⟨d,hd⟩ := Binary32.shortest?_of_isFinite hx .even
  rw [singleText,hd]
  exact render_head _ d

theorem pretty_head (indent : Nat) {j : Json} (hw : Writable j) :
    ∃ c cs, (pretty indent j).toList = c :: cs ∧ isBlank c = false ∧ c ≠ ']' ∧ c ≠ '\x7d' := by
  have hnum : ∀ {t : List Char}, (∃ c cs, t = c :: cs ∧ (c = '-' ∨ c.isDigit = true)) →
      ∃ c cs, t = c :: cs ∧ isBlank c = false ∧ c ≠ ']' ∧ c ≠ '\x7d' := by
    rintro t ⟨c,cs,rfl,hc⟩
    exact ⟨c,cs,rfl,startsNumber_opens hc⟩
  cases j with
  | null => exact ⟨'n',['u','l','l'],by simp [pretty,compact],rfl,by decide,by decide⟩
  | bool b =>
    cases b
    · exact ⟨'f',['a','l','s','e'],by simp [pretty,compact],rfl,by decide,by decide⟩
    · exact ⟨'t',['r','u','e'],by simp [pretty,compact],rfl,by decide,by decide⟩
  | int n => exact hnum (intText_head n)
  | float x => exact hnum (doubleText_head hw)
  | decimal w x => exact hnum (doubleText_head hw)
  | single x => exact hnum (singleText_head hw)
  | string s => exact ⟨'"',_,quote_toList s,rfl,by decide,by decide⟩
  | array items =>
    cases items with
    | nil => exact ⟨'[',[']'],by simp [pretty],rfl,by decide,by decide⟩
    | cons x xs => exact ⟨'[',_,pretty_array (List.cons_ne_nil x xs) indent,rfl,by decide,by decide⟩
  | object members =>
    cases members with
    | nil => exact ⟨'\x7b',['\x7d'],by simp [pretty],rfl,by decide,by decide⟩
    | cons m ms => exact ⟨'\x7b',_,pretty_object (List.cons_ne_nil m ms) indent,rfl,by decide,by decide⟩
  | unreadable r => exact hw.elim

theorem skipBlanks_pretty {j : Json} (hw : Writable j) (indent : Nat) {pre : List Char}
    (hpre : ∀ c ∈ pre, isBlank c = true) (rest : List Char) :
    ∃ c cs, skipBlanks (pre ++ (pretty indent j).toList ++ rest) = c :: cs ∧ c ≠ ']' ∧ c ≠ '\x7d' := by
  obtain ⟨c,cs,hcs,hb,hc⟩ := pretty_head indent hw
  refine ⟨c,cs ++ rest,?_,hc⟩
  rw [List.append_assoc,skipBlanks_append hpre,hcs,List.cons_append,skipBlanks_cons hb]

/-! ## A loose reading opens every container -/

section Loose

variable {fuel lim : Nat}

theorem nested_ok (b : Bool) (v : Json) (r : List Char) :
    nested true b (.ok (v,r)) = .ok (if b then .unreadable .tooDeep else v,r) := by
  cases b <;> rfl

end Loose

/-! ## Reading back, by the fuel the reader is given -/

/-- With `fuel` steps, the text of every writable document no longer than `fuel`, after blanks
and before anything that continues no number, reads back as `ReadsBack` says. -/
def ValueReads (fuel : Nat) : Prop :=
  ∀ (j : Json) (indent lim : Nat) (pre rest : List Char), Writable j → (∀ c ∈ pre, isBlank c = true) →
    EndsNumber rest → (pretty indent j).toList.length ≤ fuel →
    ∃ j', readValue true fuel lim (pre ++ (pretty indent j).toList ++ rest) = .ok (j',rest) ∧ ReadsBack lim j j'

/-- With `fuel` steps, the lines of items shorter than `fuel`, between blanks and before the
closing bracket, read back one by one after the items already read. -/
def ItemsRead (fuel : Nat) : Prop :=
  ∀ (items : List Json) (indent lim : Nat) (acc : List Json) (pre post r : List Char), items ≠ [] →
    WritableItems items → (∀ c ∈ pre, isBlank c = true) → (∀ c ∈ post, isBlank c = true) →
    (prettyItems indent items).toList.length < fuel →
    ∃ items', readItems true fuel lim acc (pre ++ (prettyItems indent items).toList ++ post ++ ']' :: r) =
      .ok (.array (acc.reverse ++ items'),r) ∧ ReadsBackItems lim items items'

/-- With `fuel` steps, the lines of members shorter than `fuel`, between blanks and before the
closing brace, read back one by one after the members already read. -/
def MembersRead (fuel : Nat) : Prop :=
  ∀ (members : List (String × Json)) (indent lim : Nat) (acc : List (String × Json)) (pre post r : List Char),
    members ≠ [] → WritableMembers members → (∀ c ∈ pre, isBlank c = true) → (∀ c ∈ post, isBlank c = true) →
    (prettyMembers indent members).toList.length < fuel →
    ∃ members', readMembers true fuel lim acc (pre ++ (prettyMembers indent members).toList ++ post ++ '\x7d' :: r) =
      .ok (.object (acc.reverse ++ members'),r) ∧ ReadsBackMembers lim members members'

theorem endsNumber_blanks {post : List Char} (hpost : ∀ c ∈ post, isBlank c = true) {c : Char}
    (hc : c = ']' ∨ c = '\x7d') (r : List Char) : EndsNumber (post ++ c :: r) := by
  cases post with
  | nil => rcases hc with rfl | rfl <;> simp [EndsNumber,Char.isDigit]
  | cons b post =>
    have hb : isBlank b = true := hpost b List.mem_cons_self
    simp only [isBlank,Bool.or_eq_true,beq_iff_eq] at hb
    rcases hb with ((rfl | rfl) | rfl) | rfl <;> simp [EndsNumber,Char.isDigit]

theorem endsNumber_comma (r : List Char) : EndsNumber (',' :: r) := by
  simp [EndsNumber,Char.isDigit]

theorem skipBlanks_close {post : List Char} (hpost : ∀ c ∈ post, isBlank c = true) {c : Char}
    (hc : isBlank c = false) (r : List Char) : skipBlanks (post ++ c :: r) = c :: r := by
  rw [skipBlanks_append hpost,skipBlanks_cons hc]

theorem pretty_array_nil (indent : Nat) : (pretty indent (.array [])).toList = ['[',']'] := by
  simp [pretty]

theorem pretty_object_nil (indent : Nat) : (pretty indent (.object [])).toList = ['\x7b','\x7d'] := by
  simp [pretty]

theorem prettyItems_cons (indent : Nat) (x : Json) (xs : List Json) :
    ∃ more, (prettyItems indent (x :: xs)).toList = List.replicate (2 * indent) ' ' ++ (pretty indent x).toList ++ more := by
  cases xs with
  | nil => exact ⟨[],by rw [prettyItems_singleton,List.append_nil]⟩
  | cons y ys => exact ⟨_,prettyItems_cons_cons indent x y ys⟩

theorem prettyMembers_cons (indent : Nat) (key : String) (x : Json) (ms : List (String × Json)) :
    ∃ more, (prettyMembers indent ((key,x) :: ms)).toList = List.replicate (2 * indent) ' ' ++ (quote key).toList ++ more := by
  cases ms with
  | nil => exact ⟨_,by rw [prettyMembers_singleton]⟩
  | cons m ms => exact ⟨_,by rw [prettyMembers_cons_cons,List.append_assoc]⟩

theorem readsBack_array {lim : Nat} {items items' : List Json} (h : ReadsBackItems (lim - 1) items items') :
    ReadsBack lim (.array items) (if decide (lim ≤ 1) = true then .unreadable .tooDeep else .array items') := by
  by_cases hl : lim ≤ 1 <;> simp [ReadsBack,hl,h]

theorem readsBack_object {lim : Nat} {members members' : List (String × Json)}
    (h : ReadsBackMembers (lim - 1) members members') :
    ReadsBack lim (.object members) (if decide (lim ≤ 1) = true then .unreadable .tooDeep else .object members') := by
  by_cases hl : lim ≤ 1 <;> simp [ReadsBack,hl,h]

section Scalars

variable {loose : Bool} {fuel lim : Nat} {rest : List Char}

theorem readValue_intText {n : Int} (hw : Writable (.int n)) (hrest : EndsNumber rest) :
    readValue loose (fuel + 1) lim ((intText n).toList ++ rest) = .ok (.int n,rest) := by
  rw [readValue_numberText (intText_head n),readNumber_intText loose hw.1 hw.2 hrest]

theorem readValue_doubleText {x : Binary64} (hx : x.isFinite = true) (hrest : EndsNumber rest) :
    ∃ d, readValue loose (fuel + 1) lim ((doubleText x).toList ++ rest) = .ok (.decimal d x,rest) := by
  obtain ⟨d,hd⟩ := readNumber_doubleText loose hx hrest
  exact ⟨d,by rw [readValue_numberText (doubleText_head hx),hd]⟩

theorem readValue_singleText {x : Binary32} (hx : x.isFinite = true) (hrest : EndsNumber rest) :
    ∃ d y, readValue loose (fuel + 1) lim ((singleText x).toList ++ rest) = .ok (.decimal d y,rest) ∧
      Binary32.ofDecimal? d.negative d.digits d.exponent = some x := by
  obtain ⟨d,y,hd,hy⟩ := readNumber_singleText loose hx hrest
  exact ⟨d,y,by rw [readValue_numberText (singleText_head hx),hd],hy⟩

theorem readValue_quoteText (s : String) (rest : List Char) :
    readValue loose (fuel + 1) lim ((quote s).toList ++ rest) = .ok (.string s,rest) := by
  rw [quote_toList,List.cons_append,readValue_quote,List.append_assoc,List.singleton_append,readStringBody_escape]
  simp only [List.reverse_nil,List.nil_append,String.ofList_toList]
  rfl

end Scalars

theorem blanks_append_spaces {pre : List Char} (hpre : ∀ c ∈ pre, isBlank c = true) (n : Nat) :
    ∀ c ∈ pre ++ List.replicate n ' ', isBlank c = true := by
  simp only [List.mem_append,List.mem_replicate]
  rintro c (hc | ⟨-,rfl⟩)
  · exact hpre c hc
  · rfl

theorem valueReads_succ {fuel : Nat} (hI : ItemsRead fuel) (hM : MembersRead fuel) : ValueReads (fuel + 1) := by
  intro j indent lim pre rest hw hpre hrest hlen
  rw [List.append_assoc,readValue_blanks hpre]
  cases j with
  | null => exact ⟨.null,readValue_null rest,rfl⟩
  | bool b =>
    cases b
    · exact ⟨.bool false,readValue_false rest,rfl⟩
    · exact ⟨.bool true,readValue_true rest,rfl⟩
  | int n => exact ⟨.int n,readValue_intText hw hrest,rfl⟩
  | float x =>
    obtain ⟨d,hd⟩ := readValue_doubleText hw hrest
    exact ⟨.decimal d x,hd,d,rfl⟩
  | decimal w x =>
    obtain ⟨d,hd⟩ := readValue_doubleText hw hrest
    exact ⟨.decimal d x,hd,d,rfl⟩
  | single x =>
    obtain ⟨d,y,hd,hy⟩ := readValue_singleText hw hrest
    exact ⟨.decimal d y,hd,d,y,rfl,hy⟩
  | string s => exact ⟨.string s,readValue_quoteText s rest,rfl⟩
  | array items =>
    cases items with
    | nil =>
      refine ⟨_,?_,readsBack_array (show ReadsBackItems (lim - 1) [] [] from rfl)⟩
      rw [pretty_array_nil,List.cons_append,List.cons_append,List.nil_append,readValue_array_nil (.inl rfl),nested_ok]
    | cons x xs =>
      have hne : x :: xs ≠ [] := List.cons_ne_nil x xs
      rw [pretty_array hne indent] at hlen ⊢
      obtain ⟨more,hmore⟩ := prettyItems_cons (indent + 1) x xs
      have hsp : ∀ c ∈ '\n' :: List.replicate (2 * (indent + 1)) ' ', isBlank c = true := by simp [isBlank]
      obtain ⟨c,cs,hc,hcb,-⟩ := skipBlanks_pretty hw.1 (indent + 1) hsp
        (more ++ ('\n' :: List.replicate (2 * indent) ' ' ++ [']']) ++ rest)
      have hopen : ∀ r, skipBlanks (('\n' :: ((prettyItems (indent + 1) (x :: xs)).toList ++
          '\n' :: List.replicate (2 * indent) ' ' ++ [']'])) ++ rest) ≠ ']' :: r := by
        intro r h
        rw [hmore] at h
        simp only [List.cons_append,List.append_assoc] at h hc
        rw [h] at hc
        exact hcb (List.cons.inj hc).1.symm
      obtain ⟨items',hread,hback⟩ := hI (x :: xs) (indent + 1) (lim - 1) [] ['\n']
        ('\n' :: List.replicate (2 * indent) ' ') rest hne hw (by simp [isBlank])
        (by simp [isBlank]) (by simp at hlen ⊢; omega)
      refine ⟨_,?_,readsBack_array hback⟩
      rw [List.cons_append,readValue_array (.inl rfl) hopen]
      simp only [List.cons_append,List.append_assoc,List.nil_append] at hread ⊢
      rw [hread,nested_ok]
      rfl
  | object members =>
    cases members with
    | nil =>
      refine ⟨_,?_,readsBack_object (show ReadsBackMembers (lim - 1) [] [] from rfl)⟩
      rw [pretty_object_nil,List.cons_append,List.cons_append,List.nil_append,readValue_object_nil (.inl rfl),nested_ok]
    | cons m ms =>
      obtain ⟨k,x⟩ := m
      have hne : (k,x) :: ms ≠ [] := List.cons_ne_nil _ ms
      rw [pretty_object hne indent] at hlen ⊢
      obtain ⟨more,hmore⟩ := prettyMembers_cons (indent + 1) k x ms
      have hopen : ∀ r, skipBlanks (('\n' :: ((prettyMembers (indent + 1) ((k,x) :: ms)).toList ++
          '\n' :: List.replicate (2 * indent) ' ' ++ ['\x7d'])) ++ rest) ≠ '\x7d' :: r := by
        intro r h
        rw [hmore,quote_toList] at h
        have hsp : ∀ c ∈ '\n' :: List.replicate (2 * (indent + 1)) ' ', isBlank c = true := by
          simp [isBlank]
        simp only [List.cons_append,List.append_assoc] at h
        rw [← List.cons_append,skipBlanks_append hsp,skipBlanks_cons (by decide)] at h
        exact absurd (List.cons.inj h).1 (by decide)
      obtain ⟨members',hread,hback⟩ := hM ((k,x) :: ms) (indent + 1) (lim - 1) [] ['\n']
        ('\n' :: List.replicate (2 * indent) ' ') rest hne hw (by simp [isBlank])
        (by simp [isBlank]) (by simp at hlen ⊢; omega)
      refine ⟨_,?_,readsBack_object hback⟩
      rw [List.cons_append,readValue_object (.inl rfl) hopen]
      simp only [List.cons_append,List.append_assoc,List.nil_append] at hread ⊢
      rw [hread,nested_ok]
      rfl
  | unreadable r => exact hw.elim

theorem itemsRead_succ {fuel : Nat} (hV : ValueReads fuel) (hI : ItemsRead fuel) : ItemsRead (fuel + 1) := by
  intro items indent lim acc pre post r hne hw hpre hpost hlen
  obtain ⟨x,xs,rfl⟩ := List.exists_cons_of_ne_nil hne
  obtain ⟨hx,hxs⟩ := hw
  have hpre' := blanks_append_spaces hpre (2 * indent)
  cases xs with
  | nil =>
    rw [prettyItems_singleton] at hlen ⊢
    obtain ⟨x',hx',hback⟩ := hV x indent lim _ (post ++ ']' :: r) hx hpre' (endsNumber_blanks hpost (.inl rfl) r)
      (by simp at hlen; omega)
    refine ⟨[x'],?_,x',[],rfl,hback,rfl⟩
    have hclose := readItems_close hx' (skipBlanks_close hpost (show isBlank ']' = false by decide) r) acc
    simp only [List.append_assoc] at hclose ⊢
    rw [hclose]
    simp
  | cons y ys =>
    rw [prettyItems_cons_cons] at hlen ⊢
    obtain ⟨x',hx',hback⟩ := hV x indent lim _ (',' :: '\n' :: ((prettyItems indent (y :: ys)).toList ++ post ++ ']' :: r))
      hx hpre' (endsNumber_comma _) (by simp at hlen; omega)
    obtain ⟨items',hrest,hbacks⟩ := hI (y :: ys) indent lim (x' :: acc) ['\n'] post r (List.cons_ne_nil y ys) hxs
      (by simp [isBlank]) hpost (by simp at hlen; omega)
    refine ⟨x' :: items',?_,x',items',rfl,hback,hbacks⟩
    have hcomma := readItems_comma hx' (skipBlanks_cons (show isBlank ',' = false by decide) _) acc
    simp only [List.append_assoc,List.cons_append,List.nil_append] at hcomma hrest ⊢
    rw [hcomma,hrest]
    simp

theorem membersRead_succ {fuel : Nat} (hV : ValueReads fuel) (hM : MembersRead fuel) : MembersRead (fuel + 1) := by
  intro members indent lim acc pre post r hne hw hpre hpost hlen
  obtain ⟨⟨k,x⟩,ms,rfl⟩ := List.exists_cons_of_ne_nil hne
  obtain ⟨hx,hms⟩ := hw
  have hpre' := blanks_append_spaces hpre (2 * indent)
  cases ms with
  | nil =>
    rw [prettyMembers_singleton] at hlen ⊢
    obtain ⟨x',hx',hback⟩ := hV x indent lim [' '] (post ++ '\x7d' :: r) hx (by simp [isBlank])
      (endsNumber_blanks hpost (.inr rfl) r) (by simp at hlen; omega)
    refine ⟨[(k,x')],?_,x',[],rfl,hback,rfl⟩
    have hclose := readMembers_close hpre' k hx' (skipBlanks_close hpost (by decide) r) acc
    simp only [List.append_assoc,List.cons_append,List.nil_append] at hclose ⊢
    rw [hclose]
    simp
  | cons m ms =>
    rw [prettyMembers_cons_cons] at hlen ⊢
    obtain ⟨x',hx',hback⟩ := hV x indent lim [' '] (',' :: '\n' :: ((prettyMembers indent (m :: ms)).toList ++ post ++ '\x7d' :: r))
      hx (by simp [isBlank]) (endsNumber_comma _) (by simp at hlen; omega)
    obtain ⟨members',hrest,hbacks⟩ := hM (m :: ms) indent lim ((k,x') :: acc) ['\n'] post r (List.cons_ne_nil m ms) hms
      (by simp [isBlank]) hpost (by simp at hlen; omega)
    refine ⟨(k,x') :: members',?_,x',members',rfl,hback,hbacks⟩
    have hcomma := readMembers_comma hpre' k hx' (skipBlanks_cons (show isBlank ',' = false by decide) _) acc
    simp only [List.append_assoc,List.cons_append,List.nil_append] at hcomma hrest ⊢
    rw [hcomma,hrest]
    simp

/-- Each fuel reads back every text it is long enough for; the induction is on the fuel, each
level given the level below, as a container's reading hands its items to the reader with
one step less. -/
theorem reads_of_fuel (fuel : Nat) : ValueReads fuel ∧ ItemsRead fuel ∧ MembersRead fuel := by
  induction fuel with
  | zero =>
    refine ⟨?_,?_,?_⟩
    · intro j indent _ _ _ hw _ _ hlen
      obtain ⟨c,cs,hcs,-⟩ := pretty_head indent hw
      rw [hcs] at hlen
      simp at hlen
    · intro _ _ _ _ _ _ _ _ _ _ _ hlen
      exact absurd hlen (Nat.not_lt_zero _)
    · intro _ _ _ _ _ _ _ _ _ _ _ hlen
      exact absurd hlen (Nat.not_lt_zero _)
  | succ fuel ih =>
    obtain ⟨hV,hI,hM⟩ := ih
    exact ⟨valueReads_succ hI hM,itemsRead_succ hV hI,membersRead_succ hV hM⟩

theorem parseLoose_render {j : Json} (hw : Writable j) :
    ∃ j', parseLoose j.render = .ok j' ∧ ReadsBack depthLimit j j' := by
  obtain ⟨j',hread,hback⟩ := (reads_of_fuel (3 * (pretty 0 j).toList.length + 3)).1 j 0 depthLimit [] []
    hw (by simp) (by simp [EndsNumber]) (by omega)
  refine ⟨j',?_,hback⟩
  simp only [List.nil_append,List.append_nil] at hread
  simp only [parseLoose,readDocument,render,hread]
  rfl

end Json

end Tickflow
