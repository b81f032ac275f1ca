import Mathlib.Data.List.TakeWhile

/-! The version order of GNU sort: the numbers in two texts are compared as numbers and what is between
them as text, without a file's extensions at first. -/

namespace VersionSort
open List

abbrev Text := List Char

/-- The rank of the next character: `~` is before the end of a text, which is before everything else. -/
def order : Text → Int
  | [] => -1
  | c::_ =>
    if c.isDigit then 0
    else if c.isAlpha then c.toNat
    else if c = '~' then -2
    else c.toNat+256

def startsMark (t : Text) : Bool := t.head?.any fun c => !c.isDigit

/-- The characters before the next number of both: how they compare, or what follows them. -/
def marks : Text → Text → Ordering ⊕ (Text × Text)
  | [],b => if startsMark b then .inl (compare (order []) (order b)) else .inr ([],b)
  | c::a,b =>
    if startsMark (c::a) || startsMark b then
      match compare (order (c::a)) (order b) with
      | .eq => marks a b.tail
      | o => .inl o
    else .inr (c::a,b)

def value (t : Text) : Nat := t.foldl (fun n c => 10*n+(c.toNat-48)) 0

def number (t : Text) : Nat := value (t.takeWhile Char.isDigit)

def afterNumber (t : Text) : Text := t.dropWhile Char.isDigit

/-- `verrevcmp`, where the first argument bounds its rounds. -/
def verrevcmp : Nat → Text → Text → Ordering
  | 0,_,_ => .eq
  | n+1,a,b =>
    if a = [] ∧ b = [] then .eq
    else
      match marks a b with
      | .inl o => o
      | .inr (a,b) => (compare (number a) (number b)).then (verrevcmp n (afterNumber a) (afterNumber b))

/-- `(\.[A-Za-z~][A-Za-z0-9~]*)*` of the whole text, from a dot on, behind one, or in an extension. -/
def extensions : Nat → Text → Bool
  | 0,c::t => c = '.' && extensions 1 t
  | 1,c::t => (c.isAlpha || c = '~') && extensions 2 t
  | 2,c::t => if c = '.' then extensions 1 t else (c.isAlphanum || c = '~') && extensions 2 t
  | 1,[] => false
  | _,_ => true

/-- The text up to where it is nothing but extensions. -/
def cutFrom : Text → Text
  | [] => []
  | c::t => if extensions 0 (c::t) then [] else c::cutFrom t

/-- `file_prefixlen` -/
def filePrefix : Text → Text
  | [] => []
  | c::t => c::cutFrom t

/-- Nothing, ".", "..", the other texts with a dot in front, and the rest. -/
def rank (t : Text) : Nat :=
  if t = [] then 0
  else if t = ['.'] then 1
  else if t = ['.','.'] then 2
  else if t.head? = some '.' then 3
  else 4

def rounds (a b : Text) : Nat := a.length+b.length+1

/-- `filenvercmp` -/
def filenvercmp (a b : Text) : Ordering :=
  (compare (rank a) (rank b)).then <|
    if rank a ≤ 2 then .eq
    else
      (verrevcmp (rounds a b) (filePrefix a) (filePrefix b)).then <|
        if filePrefix a = a ∧ filePrefix b = b then .eq else verrevcmp (rounds a b) a b

/-- The first of two lines that are sorted; `collate` is the order of the locale, for lines that are of
one version. -/
def first (collate : Text → Text → Bool) (a b : Text) : Text :=
  match filenvercmp a b with
  | .lt => a
  | .eq => if collate a b then a else b
  | .gt => b

/-! Dotted numbers. -/

def Digits (t : Text) : Prop := t ≠ [] ∧ ∀ c ∈ t, c.isDigit = true

def Ends (t : Text) : Prop := t.head?.any Char.isDigit = false

attribute [local simp] extensions marks verrevcmp cutFrom

theorem Digits.all {t : Text} (some_ : t ≠ []) (h : t.all Char.isDigit = true) : Digits t :=
  ⟨some_,all_eq_true.1 h⟩

theorem Digits.cons {t : Text} (h : Digits t) : ∃ c u, t = c::u ∧ c.isDigit = true := by
  obtain ⟨some_,all⟩ := h
  cases t with
  | nil => exact absurd rfl some_
  | cons c u => exact ⟨c,u,rfl,all c (by simp)⟩

theorem Digits.unmarked {t : Text} (h : Digits t) (rest : Text) : startsMark (t++rest) = false := by
  obtain ⟨c,u,rfl,digit⟩ := h.cons
  simp [startsMark,digit]

variable {a b : Text}

theorem marks_digits (ha : Digits a) (hb : Digits b) (x y : Text) :
    marks (a++x) (b++y) = .inr (a++x,b++y) := by
  have na := ha.unmarked x
  have nb := hb.unmarked y
  obtain ⟨c,u,rfl,-⟩ := ha.cons
  rw [cons_append] at na ⊢
  rw [marks,na,nb]
  rfl

theorem marks_dot (ha : Digits a) (hb : Digits b) (x y : Text) :
    marks ('.'::(a++x)) ('.'::(b++y)) = .inr (a++x,b++y) := by
  have marked : ∀ t : Text, startsMark ('.'::t) = true := fun _ => rfl
  have same : compare (order ('.'::(a++x))) (order ('.'::(b++y))) = .eq := rfl
  rw [marks,marked,same]
  exact marks_digits ha hb x y

variable {x : Text}

theorem number_digits (h : Digits a) (ends : Ends x) :
    number (a++x) = value a ∧ afterNumber (a++x) = x := by
  have none : x.takeWhile Char.isDigit = [] ∧ x.dropWhile Char.isDigit = x := by
    cases x with
    | nil => exact ⟨rfl,rfl⟩
    | cons c x =>
      have plain : c.isDigit = false := ends
      simp [plain]
  refine ⟨?_,?_⟩
  · rw [number,takeWhile_append_of_pos h.2,none.1,append_nil]
  · rw [afterNumber,dropWhile_append_of_pos h.2,none.2]

/-- A round that begins with a number. -/
theorem verrevcmp_number {y : Text} (n : Nat) (ha : Digits a) (hb : Digits b) (hx : Ends x) (hy : Ends y) :
    verrevcmp (n+1) (a++x) (b++y) = (compare (value a) (value b)).then (verrevcmp n x y) := by
  have some_ : ¬(a++x = [] ∧ b++y = []) := fun no => ha.1 (append_eq_nil_iff.1 no.1).1
  rw [verrevcmp,if_neg some_,marks_digits ha hb]
  dsimp only
  rw [(number_digits ha hx).1,(number_digits hb hy).1,(number_digits ha hx).2,(number_digits hb hy).2]

/-- A round that begins with a dot and a number. -/
theorem verrevcmp_dot {y : Text} (n : Nat) (ha : Digits a) (hb : Digits b) (hx : Ends x) (hy : Ends y) :
    verrevcmp (n+1) ('.'::(a++x)) ('.'::(b++y)) = (compare (value a) (value b)).then (verrevcmp n x y) := by
  rw [verrevcmp,if_neg (fun no => nomatch no.1),marks_dot ha hb]
  dsimp only
  rw [(number_digits ha hx).1,(number_digits hb hy).1,(number_digits ha hx).2,(number_digits hb hy).2]

theorem ends_dot (t : Text) : Ends ('.'::t) := rfl

/-- Three numbers with dots between them. -/
def dotted (a b c : Text) : Text := a ++ '.' :: (b ++ '.' :: c)

def compareThree (a b c a' b' c' : Nat) : Ordering :=
  (compare a a').then ((compare b b').then (compare c c'))

theorem verrevcmp_dotted {c a' b' c' y : Text} (n : Nat) (ha : Digits a) (hb : Digits b)
    (hc : Digits c) (ha' : Digits a') (hb' : Digits b') (hc' : Digits c') (hx : Ends x) (hy : Ends y) :
    verrevcmp (n+3) (dotted a b (c++x)) (dotted a' b' (c'++y)) =
      (compareThree (value a) (value b) (value c) (value a') (value b') (value c')).then
        (verrevcmp n x y) := by
  unfold dotted compareThree
  rw [verrevcmp_number _ ha ha' (ends_dot _) (ends_dot _),verrevcmp_dot _ hb hb' (ends_dot _) (ends_dot _),
    verrevcmp_dot _ hc hc' hx hy]
  cases compare (value a) (value a') <;> cases compare (value b) (value b') <;>
    cases compare (value c) (value c') <;> rfl

/-! A text without its extensions: those of a version are behind its first dash. -/

theorem cutFrom_digits (h : ∀ c ∈ a, c.isDigit = true) (x : Text) : cutFrom (a++x) = a++cutFrom x := by
  induction a with
  | nil => rfl
  | cons c a ih =>
    have dot : c ≠ '.' := fun no => nomatch no ▸ h c (by simp)
    have plain : extensions 0 (c::(a++x)) = false := by
      rw [extensions,decide_eq_false dot]
      rfl
    rw [cons_append,cutFrom,plain,ih fun d hd => h d (mem_cons_of_mem _ hd)]
    rfl

theorem cutFrom_dot (h : Digits a) (x : Text) : cutFrom ('.'::(a++x)) = '.'::(a++cutFrom x) := by
  have plain : extensions 0 ('.'::(a++x)) = false := by
    obtain ⟨c,u,rfl,digit⟩ := h.cons
    have letter : c.isAlpha = false := by
      delta Char.isAlpha Char.isUpper Char.isLower
      simp only [Char.isDigit,Bool.and_eq_true,decide_eq_true_eq,Bool.or_eq_false_iff,ge_iff_le,
        UInt32.le_iff_toNat_le,Bool.and_eq_false_imp,decide_eq_false_iff_not] at digit ⊢
      have high : c.val.toNat ≤ 57 := digit.2
      have upper : 'A'.val.toNat = 65 := rfl
      have lower : 'a'.val.toNat = 97 := rfl
      exact ⟨fun no => by omega,fun no => by omega⟩
    have tilde : c ≠ '~' := fun no => by rw [no] at digit; cases digit
    rw [cons_append,extensions,extensions,letter,decide_eq_false tilde]
    rfl
  rw [cutFrom,plain,cutFrom_digits h.2]
  rfl

/-- Nothing, or a dash and more. -/
def Suffix (x : Text) : Prop := x = [] ∨ ∃ s, x = '-'::s

theorem Suffix.ends (h : Suffix x) : Ends x := by
  obtain rfl | ⟨s,rfl⟩ := h <;> rfl

theorem Suffix.cut (h : Suffix x) : Suffix (cutFrom x) ∧ (cutFrom x = [] ↔ x = []) := by
  obtain rfl | ⟨s,rfl⟩ := h
  · exact ⟨.inl rfl,Iff.rfl⟩
  · have cut : cutFrom ('-'::s) = '-'::cutFrom s := rfl
    rw [cut]
    exact ⟨.inr ⟨_,rfl⟩,by simp⟩

theorem filePrefix_dotted {c : Text} (ha : Digits a) (hb : Digits b) (hc : Digits c) :
    filePrefix (dotted a b (c++x)) = dotted a b (c++cutFrom x) := by
  obtain ⟨d,u,rfl,-⟩ := ha.cons
  unfold dotted
  rw [cons_append,filePrefix,cutFrom_digits fun e he => ha.2 e (mem_cons_of_mem _ he),cutFrom_dot hb,
    cutFrom_dot hc]
  rfl

theorem rank_dotted {c : Text} (ha : Digits a) : rank (dotted a b c) = 4 := by
  obtain ⟨d,u,rfl,digit⟩ := ha.cons
  have dot : d ≠ '.' := fun no => nomatch no ▸ digit
  unfold dotted rank
  simp [dot]

theorem verrevcmp_suffix (n : Nat) (h : Suffix x) :
    verrevcmp (n+1) [] x = if x = [] then .eq else .lt := by
  obtain rfl | ⟨s,rfl⟩ := h <;> rfl

/-- Three numbers against three numbers and a suffix: the numbers decide, then whether there is one. -/
theorem filenvercmp_dotted {c a' b' c' : Text} (ha : Digits a) (hb : Digits b) (hc : Digits c)
    (ha' : Digits a') (hb' : Digits b') (hc' : Digits c') (hx : Suffix x) :
    filenvercmp (dotted a b c) (dotted a' b' (c'++x)) =
      (compareThree (value a) (value b) (value c) (value a') (value b') (value c')).then
        (if x = [] then .eq else .lt) := by
  have long : ∃ n, rounds (dotted a b c) (dotted a' b' (c'++x)) = n+1+3 := by
    unfold rounds dotted
    refine ⟨a.length+b.length+c.length+(a'.length+b'.length+(c'++x).length)+1,?_⟩
    simp only [length_append,length_cons]
    omega
  obtain ⟨n,long⟩ := long
  have one : filePrefix (dotted a b c) = dotted a b c := by
    have plain := filePrefix_dotted (x := []) ha hb hc
    rwa [show cutFrom [] = [] from rfl,append_nil] at plain
  have two := filePrefix_dotted (x := x) ha' hb' hc'
  have cmp : ∀ y : Text, Suffix y → verrevcmp (n+1+3) (dotted a b c) (dotted a' b' (c'++y)) =
      (compareThree (value a) (value b) (value c) (value a') (value b') (value c')).then
        (if y = [] then .eq else .lt) := by
    intro y hy
    have step := verrevcmp_dotted (n+1) ha hb hc ha' hb' hc' (x := []) rfl hy.ends
    rwa [append_nil,verrevcmp_suffix n hy] at step
  unfold filenvercmp
  rw [rank_dotted ha,rank_dotted ha',long,one,two,cmp _ hx.cut.1,cmp x hx]
  have rest : (if cutFrom x = [] then Ordering.eq else Ordering.lt) = if x = [] then .eq else .lt :=
    if_congr hx.cut.2 rfl rfl
  have ranks : compare 4 4 = Ordering.eq := rfl
  rw [rest,ranks,if_neg (by decide : ¬4 ≤ 2)]
  generalize (compareThree (value a) (value b) (value c) (value a') (value b') (value c')).then
    (if x = [] then .eq else .lt) = o
  cases o with
  | lt => rfl
  | gt => rfl
  | eq => exact ite_self _

end VersionSort
