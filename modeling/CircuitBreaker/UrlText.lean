import CircuitBreaker.TextWords
import Mathlib.Data.List.TakeWhile
import Mathlib.Data.List.DropRight

/-! URLs as Python's urllib.parse takes them apart and puts them together. -/

namespace UrlText
open List

abbrev Text := List Char

structure ParseResult where
  scheme : Text
  netloc : Text
  path : Text
  params : Text
  query : Text
  fragment : Text

def schemeChar (c : Char) : Bool := c.isAlphanum || c = '+' || c = '-' || c = '.'

/-- Tabs and line ends are dropped wherever they stand. -/
def kept (c : Char) : Bool := c ≠ '\t' && c ≠ '\r' && c ≠ '\n'

def netlocChar (c : Char) : Bool := c ≠ '/' && c ≠ '?' && c ≠ '#'

def clean (url : Text) : Text := (url.dropWhile fun c => c.toNat ≤ 32).filter kept

/-- A scheme begins with a letter. -/
def isScheme (t : Text) : Bool := t.head?.any Char.isAlpha && t.all schemeChar

/-- What is before the first such character, and what is behind it. -/
def cut (c : Char) (t : Text) : Text × Text := (t.takeWhile (· ≠ c),(t.dropWhile (· ≠ c)).tail)

def splitScheme (url : Text) : Text × Text :=
  if ':' ∈ url ∧ isScheme (cut ':' url).1 then ((cut ':' url).1.map Char.toLower,(cut ':' url).2)
  else ([],url)

def splitNetloc (url : Text) : Text × Text :=
  if url.take 2 = ['/','/'] then
    ((url.drop 2).takeWhile netlocChar,(url.drop 2).dropWhile netlocChar)
  else ([],url)

/-- `uses_params` -/
def usesParams : List Text :=
  ["","ftp","hdl","prospero","http","imap","https","shttp","rtsp","rtsps","rtspu","sip","sips","mms",
    "sftp","tel"].map String.toList

/-- What is behind the last slash. -/
def lastSegment (url : Text) : Text := url.rtakeWhile (· ≠ '/')

def splitParams (scheme url : Text) : Text × Text :=
  if scheme ∈ usesParams then
    (url.rdropWhile (· ≠ '/')++(cut ';' (lastSegment url)).1,(cut ';' (lastSegment url)).2)
  else (url,[])

/-- `urlparse`; `accepts` is false of the network locations that it refuses, for their brackets or for
what Unicode normalization makes of them. -/
def urlparse (accepts : Text → Bool) (url : Text) : Option ParseResult :=
  let schemed := splitScheme (clean url)
  let located := splitNetloc schemed.2
  let fragmented := cut '#' located.2
  let queried := cut '?' fragmented.1
  let pathed := splitParams schemed.1 queried.1
  if accepts located.1 then
    some ⟨schemed.1,located.1,pathed.1,pathed.2,queried.2,fragmented.2⟩
  else none

/-- A part with the character before it, if there is one. -/
def led (c : Char) (part : Text) : Text := if part = [] then [] else c::part

/-- `geturl()` of a result with a network location. -/
def urlunparse (p : ParseResult) : Text :=
  (if p.scheme = [] then [] else p.scheme++[':'])++ '/':: '/'::(p.netloc++
    (if (p.path++led ';' p.params).head?.any (· ≠ '/') then ['/'] else [])++
    p.path++led ';' p.params++led '?' p.query++led '#' p.fragment)

/-! The parts of a network location. -/

/-- What is behind the last `@`. -/
def hostinfo (netloc : Text) : Text := netloc.rtakeWhile (· ≠ '@')

/-- A user name or a password that is not empty. -/
def hasUserinfo (netloc : Text) : Bool :=
  '@' ∈ netloc && (netloc.rdropWhile (· ≠ '@')).dropLast ∉ [[],[':']]

/-- The host's text, and the port's. -/
def hostPort (netloc : Text) : Text × Text :=
  if '[' ∈ hostinfo netloc then
    ((cut ']' (cut '[' (hostinfo netloc)).2).1,(cut ':' (cut ']' (cut '[' (hostinfo netloc)).2).2).2)
  else cut ':' (hostinfo netloc)

/-- `hostname`; a zone keeps its case. -/
def hostname (lower : Text → Text) (netloc : Text) : Option Text :=
  let host := (hostPort netloc).1
  if host = [] then none
  else some (lower (cut '%' host).1++if '%' ∈ host then '%'::(cut '%' host).2 else [])

def decimal (t : Text) : Nat := t.foldl (fun n c => 10*n+(c.toNat- '0'.toNat)) 0

/-- `port`, as far as it does not raise. -/
def portOf (netloc : Text) : Option (Option Nat) :=
  let port := (hostPort netloc).2
  if port = [] then some none
  else if port.all Char.isDigit && decimal port ≤ 65535 then some (some (decimal port))
  else none

/-! Cutting a text. -/

section
variable {c : Char} {a b t : Text}

theorem cut_append (h : c ∉ a) : cut c (a++c::b) = (a,b) := by
  have all : ∀ x ∈ a, decide (x ≠ c) = true := fun x hx => decide_eq_true fun eq => h (eq ▸ hx)
  rw [cut,takeWhile_append_of_pos all,dropWhile_append_of_pos all]
  simp

theorem cut_none (h : c ∉ a) : cut c a = (a,[]) := by
  have all : ∀ x ∈ a, decide (x ≠ c) = true := fun x hx => decide_eq_true fun eq => h (eq ▸ hx)
  rw [cut,takeWhile_eq_self_iff.2 all,dropWhile_eq_nil_iff.2 all]
  rfl

theorem cut_led (h : c ∉ a) : cut c (a++led c b) = (a,b) := by
  rw [led]
  split
  · rename_i none
    rw [none,append_nil,cut_none h]
  · exact cut_append h

theorem cut_not_mem (c : Char) (t : Text) : c ∉ (cut c t).1 := by
  intro there
  have other := @List.mem_takeWhile_imp Char (fun x => decide (x ≠ c)) t c there
  exact of_decide_eq_true other rfl

theorem mem_cut (h : ∀ x ∈ t, kept x = true) :
    (∀ x ∈ (cut c t).1, kept x = true) ∧ ∀ x ∈ (cut c t).2, kept x = true :=
  ⟨fun x hx => h x ((takeWhile_sublist _).subset hx),
    fun x hx => h x ((dropWhile_sublist _).subset (mem_of_mem_tail hx))⟩

theorem cut_fst_subset : ∀ x ∈ (cut c t).1, x ∈ t := fun _ hx => (takeWhile_sublist _).subset hx

theorem cut_snd_subset : ∀ x ∈ (cut c t).2, x ∈ t := fun _ hx =>
  (dropWhile_sublist _).subset (mem_of_mem_tail hx)

end

/-! The parameters of the last segment. -/

theorem rcut_append {c : Char} {a b : Text} (h : c ∉ b) :
    (a++c::b).rtakeWhile (· ≠ c) = b ∧ (a++c::b).rdropWhile (· ≠ c) = a++[c] := by
  have all : ∀ x ∈ b.reverse, decide (x ≠ c) = true := fun x hx =>
    decide_eq_true fun eq => h (eq ▸ mem_reverse.1 hx)
  have turned : (a++c::b).reverse = b.reverse++c::a.reverse := by simp
  rw [List.rtakeWhile,List.rdropWhile,turned,takeWhile_append_of_pos all,
    dropWhile_append_of_pos all]
  simp

theorem lastSegment_append {dir last : Text} (h : '/' ∉ last) (slash : ∀ x ∈ dir.getLast?, x = '/') :
    lastSegment (dir++last) = last ∧ (dir++last).rdropWhile (· ≠ '/') = dir := by
  have all : ∀ x ∈ last.reverse, decide (x ≠ '/') = true := fun x hx =>
    decide_eq_true fun eq => h (eq ▸ mem_reverse.1 hx)
  rw [lastSegment,List.rtakeWhile,List.rdropWhile,reverse_append,
    takeWhile_append_of_pos all,dropWhile_append_of_pos all]
  cases hd : dir.reverse with
  | nil =>
    have none : dir = [] := reverse_eq_nil_iff.1 hd
    simp [none]
  | cons x rest =>
    have eq : dir = rest.reverse++[x] := by
      rw [←reverse_reverse dir,hd,reverse_cons]
    have last : x = '/' := slash x (by rw [eq]; simp)
    subst last
    simp [eq]

theorem splitParams_last (scheme url : Text) (h : scheme ∈ usesParams) : ∃ dir last : Text,
    url = dir++last ∧ '/' ∉ last ∧ (∀ x ∈ dir.getLast?, x = '/') ∧
      splitParams scheme url = (dir++(cut ';' last).1,(cut ';' last).2) := by
  refine ⟨url.rdropWhile (· ≠ '/'),lastSegment url,(rdropWhile_append_rtakeWhile).symm,
    fun there => ?_,fun x hx => ?_,if_pos h⟩
  · have other := mem_rtakeWhile_imp there
    exact of_decide_eq_true other rfl
  · obtain ⟨some_,rfl⟩ := mem_getLast?_eq_getLast hx
    have stops := rdropWhile_last_not (· ≠ '/') url some_
    simpa using stops

/-- Parameters that were split off are split off again. -/
theorem splitParams_again (scheme url : Text) :
    splitParams scheme ((splitParams scheme url).1++led ';' (splitParams scheme url).2) =
      splitParams scheme url := by
  by_cases h : scheme ∈ usesParams
  · obtain ⟨dir,last,-,segment,slash,eq⟩ := splitParams_last scheme url h
    have whole : '/' ∉ (cut ';' last).1++led ';' (cut ';' last).2 := by
      intro there
      rcases mem_append.1 there with there | there
      · exact segment (cut_fst_subset _ there)
      · rw [led] at there
        split at there
        · cases there
        · rcases mem_cons.1 there with eq | there
          · exact absurd eq (by decide)
          · exact segment (cut_snd_subset _ there)
    obtain ⟨again,before⟩ := lastSegment_append whole slash
    rw [eq]
    show splitParams scheme ((dir++(cut ';' last).1)++led ';' (cut ';' last).2) = _
    rw [append_assoc,splitParams,if_pos h,again,before,cut_led (cut_not_mem ';' last)]
  · simp [splitParams,h,led]

theorem led_cut_mem {c : Char} {t : Text} : ∀ x ∈ led c (cut c t).2, x ∈ t := by
  intro x hx
  rw [led] at hx
  split at hx
  · cases hx
  · rename_i some_
    rcases mem_cons.1 hx with rfl | hx
    · by_contra none
      exact some_ (by rw [cut_none none])
    · exact cut_snd_subset x hx

variable {scheme url : Text}

theorem splitParams_mem :
    ∀ x ∈ (splitParams scheme url).1++led ';' (splitParams scheme url).2, x ∈ url := by
  by_cases h : scheme ∈ usesParams
  · obtain ⟨dir,last,whole,-,-,eq⟩ := splitParams_last scheme url h
    intro x hx
    rw [eq,whole,append_assoc] at *
    rcases mem_append.1 hx with hx | hx
    · exact mem_append_left _ hx
    · refine mem_append_right _ ?_
      rcases mem_append.1 hx with hx | hx
      · exact cut_fst_subset x hx
      · exact led_cut_mem x hx
  · simp [splitParams,h,led]

theorem splitParams_rooted (h : url = [] ∨ url.head? = some '/') :
    (splitParams scheme url).1 = [] ∧ (splitParams scheme url).2 = [] ∨
      (splitParams scheme url).1.head? = some '/' := by
  by_cases uses : scheme ∈ usesParams
  · obtain ⟨dir,last,whole,segment,-,eq⟩ := splitParams_last scheme url uses
    rw [eq]
    cases dir with
    | nil =>
      rw [nil_append] at whole
      subst whole
      rcases h with rfl | slash
      · exact .inl ⟨rfl,rfl⟩
      · exact absurd (mem_of_mem_head? slash) segment
    | cons c dir =>
      rcases h with none | slash
      · rw [whole] at none
        cases none
      · rw [whole] at slash
        exact .inr slash
  · rw [splitParams,if_neg uses]
    exact h.imp_left fun none => ⟨none,rfl⟩

/-- Every part but the network location is as the parser leaves it behind one. -/
structure ParseResult.Proper (p : ParseResult) : Prop where
  scheme : p.scheme = [] ∨ (isScheme p.scheme = true ∧ p.scheme.map Char.toLower = p.scheme)
  rooted : p.path = [] ∧ p.params = [] ∨ p.path.head? = some '/'
  pathText : ∀ c ∈ p.path++led ';' p.params, c ≠ '?' ∧ c ≠ '#' ∧ kept c = true
  queryText : ∀ c ∈ p.query, c ≠ '#' ∧ kept c = true
  fragmentText : ∀ c ∈ p.fragment, kept c = true
  split : splitParams p.scheme (p.path++led ';' p.params) = (p.path,p.params)

def NetlocText (t : Text) : Prop := ∀ c ∈ t, netlocChar c = true ∧ kept c = true

theorem clean_kept (url : Text) : ∀ c ∈ clean url, kept c = true := fun _ hc =>
  (mem_filter.1 hc).2

theorem schemeChar_lt {c : Char} (h : schemeChar c = true) : c.toNat < 128 := by
  have upper : ∀ d : Char, d.isAlphanum = true → d.toNat < 128 := by
    intro d hd
    delta Char.isAlphanum Char.isAlpha Char.isUpper Char.isLower at hd
    simp only [Char.isDigit,Bool.or_eq_true,Bool.and_eq_true,decide_eq_true_eq,
      UInt32.le_iff_toNat_le,ge_iff_le] at hd
    have value : d.toNat = d.val.toNat := rfl
    have last : 'z'.val.toNat = 122 := rfl
    have big : 'Z'.val.toNat = 90 := rfl
    have nine : '9'.val.toNat = 57 := rfl
    omega
  simp only [schemeChar,Bool.or_eq_true,decide_eq_true_eq] at h
  rcases h with ((h | rfl) | rfl) | rfl
  · exact upper c h
  · decide
  · decide
  · decide

theorem schemeChar_lower {c : Char} (h : schemeChar c = true) : schemeChar c.toLower = true ∧
    c.toLower.toLower = c.toLower ∧ (c.isAlpha = true → c.toLower.isAlpha = true) ∧ kept c = true ∧
    kept c.toLower = true ∧ ¬c.toLower.toNat ≤ 32 ∧ c.toLower ≠ ':' := by
  have all : ∀ n : Fin 128, schemeChar (Char.ofNat n) = true →
      schemeChar (Char.ofNat n).toLower = true ∧
      (Char.ofNat n).toLower.toLower = (Char.ofNat n).toLower ∧
      ((Char.ofNat n).isAlpha = true → (Char.ofNat n).toLower.isAlpha = true) ∧
      kept (Char.ofNat n) = true ∧ kept (Char.ofNat n).toLower = true ∧
      ¬(Char.ofNat n).toLower.toNat ≤ 32 ∧ (Char.ofNat n).toLower ≠ ':' := by
    decide
  have here := all ⟨c.toNat,schemeChar_lt h⟩
  simp only [Char.ofNat_toNat] at here
  exact here h

theorem isScheme_lower {t : Text} (h : isScheme t = true) : isScheme (t.map Char.toLower) = true ∧
    (t.map Char.toLower).map Char.toLower = t.map Char.toLower := by
  rw [isScheme,Bool.and_eq_true,all_eq_true] at h
  obtain ⟨first,all⟩ := h
  constructor
  · rw [isScheme,Bool.and_eq_true,all_eq_true]
    constructor
    · cases t with
      | nil => simp at first
      | cons c t => exact (schemeChar_lower (all c mem_cons_self)).2.2.1 (by simpa using first)
    · intro c hc
      obtain ⟨d,hd,rfl⟩ := mem_map.1 hc
      exact (schemeChar_lower (all d hd)).1
  · rw [map_map]
    exact map_congr_left fun c hc => (schemeChar_lower (all c hc)).2.1

theorem splitScheme_spec (h : ∀ c ∈ url, kept c = true) :
    ((splitScheme url).1 = [] ∨ (isScheme (splitScheme url).1 = true ∧
      (splitScheme url).1.map Char.toLower = (splitScheme url).1)) ∧
    ∀ c ∈ (splitScheme url).2, kept c = true := by
  rw [splitScheme]
  split
  · rename_i found
    exact ⟨.inr (isScheme_lower found.2),(mem_cut h).2⟩
  · exact ⟨.inl rfl,h⟩

theorem splitNetloc_spec (h : ∀ c ∈ url, kept c = true)
    (some_ : (splitNetloc url).1 ≠ []) : NetlocText (splitNetloc url).1 ∧
    (∀ c ∈ (splitNetloc url).2, kept c = true) ∧
    ∀ c ∈ (splitNetloc url).2.head?, netlocChar c = false := by
  rw [splitNetloc] at some_ ⊢
  split at some_
  · rename_i slashes
    have inside : ∀ c ∈ url.drop 2, kept c = true := fun c hc => h c (mem_of_mem_drop hc)
    rw [if_pos slashes]
    refine ⟨fun c hc => ⟨mem_takeWhile_imp hc,inside c ((takeWhile_sublist _).subset hc)⟩,
      fun c hc => inside c ((dropWhile_sublist _).subset hc),fun c hc => ?_⟩
    have stops := head?_dropWhile_not netlocChar (url.drop 2)
    rw [hc] at stops
    simpa using stops
  · exact absurd rfl some_

/-- Behind a network location there is a path from the root, or none. -/
theorem rooted_cut {rest : Text} (h : ∀ c ∈ rest.head?, netlocChar c = false) :
    (cut '?' (cut '#' rest).1).1 = [] ∨ (cut '?' (cut '#' rest).1).1.head? = some '/' := by
  cases rest with
  | nil => exact .inl rfl
  | cons c rest =>
    have stops := h c rfl
    simp only [netlocChar,Bool.and_eq_false_iff,decide_eq_false_iff_not,not_not] at stops
    rcases stops with (rfl | rfl) | rfl
    · exact .inr rfl
    · exact .inl rfl
    · exact .inl rfl

variable {p : ParseResult}

theorem urlparse_proper {accepts : Text → Bool}
    (h : urlparse accepts url = some p) (some_ : p.netloc ≠ []) :
    p.Proper ∧ NetlocText p.netloc ∧ accepts p.netloc = true := by
  rw [urlparse] at h
  split at h <;> cases h
  rename_i ok
  obtain ⟨scheme,keeps⟩ := splitScheme_spec (clean_kept url)
  obtain ⟨netloc,keeps,stops⟩ := splitNetloc_spec keeps some_
  obtain ⟨keeps,fragment⟩ := mem_cut (c := '#') keeps
  have noHash := cut_not_mem '#' (splitNetloc (splitScheme (clean url)).2).2
  have text : ∀ c ∈ (cut '#' (splitNetloc (splitScheme (clean url)).2).2).1,
      c ≠ '#' ∧ kept c = true := fun c hc => ⟨fun eq => noHash (eq ▸ hc),keeps c hc⟩
  refine ⟨⟨scheme,splitParams_rooted (rooted_cut stops),fun c hc => ?_,
    fun c hc => text c (cut_snd_subset c hc),fragment,splitParams_again _ _⟩,netloc,ok⟩
  have inside := splitParams_mem c hc
  exact ⟨fun eq => cut_not_mem '?' _ (eq ▸ inside),text c (cut_fst_subset c inside)⟩

/-- What follows the network location. -/
def ParseResult.target (p : ParseResult) : Text :=
  (p.path++led ';' p.params)++led '?' p.query++led '#' p.fragment

theorem ParseResult.Proper.unparse (h : p.Proper) : urlunparse p =
    (if p.scheme = [] then [] else p.scheme++[':'])++ '/':: '/'::(p.netloc++p.target) := by
  have rooted : (p.path++led ';' p.params).head?.any (· ≠ '/') = false := by
    rcases h.rooted with ⟨path,params⟩ | slash
    · rw [path,params]
      rfl
    · cases hp : p.path with rw [hp] at slash
      | nil =>
        cases slash
      | cons c rest =>
        cases slash
        rfl
  rw [urlunparse,rooted,ParseResult.target]
  simp only [Bool.false_eq_true,if_false,append_nil,append_assoc]

theorem ParseResult.Proper.target_stops (h : p.Proper) :
    ∀ c ∈ p.target.head?, netlocChar c = false := by
  rw [ParseResult.target]
  rcases h.rooted with ⟨path,params⟩ | slash
  · rw [path,params]
    intro c hc
    cases hq : p.query with rw [hq] at hc
    | cons x query =>
      cases hc
      rfl
    | nil =>
      cases hf : p.fragment with
      | nil =>
        rw [hf] at hc
        cases hc
      | cons x fragment =>
        rw [hf] at hc
        cases hc
        rfl
  · intro c hc
    cases hp : p.path with
    | nil =>
      rw [hp] at slash
      cases slash
    | cons x path =>
      rw [hp] at slash hc
      cases slash
      cases hc
      rfl

theorem ParseResult.Proper.target_kept (h : p.Proper) :
    ∀ c ∈ p.target, kept c = true := by
  have mem_led : ∀ {d : Char} {t : Text}, kept d = true → (∀ c ∈ t, kept c = true) →
      ∀ c ∈ led d t, kept c = true := by
    intro d t hd ht c hc
    rw [led] at hc
    split at hc
    · cases hc
    · rcases mem_cons.1 hc with rfl | hc
      · exact hd
      · exact ht c hc
  intro c hc
  rcases mem_append.1 hc with hc | hc
  · rcases mem_append.1 hc with hc | hc
    · exact (h.pathText c hc).2.2
    · exact mem_led (by decide) (fun x hx => (h.queryText x hx).2) c hc
  · exact mem_led (by decide) h.fragmentText c hc

theorem ParseResult.Proper.cuts (h : p.Proper) :
    cut '#' p.target = ((p.path++led ';' p.params)++led '?' p.query,p.fragment) ∧
    cut '?' ((p.path++led ';' p.params)++led '?' p.query) = (p.path++led ';' p.params,p.query) := by
  constructor
  · refine cut_led fun there => ?_
    rcases mem_append.1 there with there | there
    · exact (h.pathText _ there).2.1 rfl
    · rw [led] at there
      split at there
      · cases there
      · rcases mem_cons.1 there with eq | there
        · exact absurd eq (by decide)
        · exact (h.queryText _ there).1 rfl
  · exact cut_led fun there => (h.pathText _ there).1 rfl

theorem splitNetloc_append {netloc rest : Text} (h : NetlocText netloc)
    (stops : ∀ c ∈ rest.head?, netlocChar c = false) :
    splitNetloc ('/':: '/'::(netloc++rest)) = (netloc,rest) := by
  have all : ∀ c ∈ netloc, netlocChar c = true := fun c hc => (h c hc).1
  have slashes : ('/':: '/'::(netloc++rest)).take 2 = ['/','/'] := rfl
  rw [splitNetloc,if_pos slashes]
  show ((netloc++rest).takeWhile netlocChar,(netloc++rest).dropWhile netlocChar) = _
  rw [takeWhile_append_of_pos all,dropWhile_append_of_pos all]
  cases rest with
  | nil => simp
  | cons c rest =>
    have stop := stops c rfl
    simp [stop]

/-- A scheme is read before what begins with two slashes. -/
theorem splitScheme_unparse {rest : Text}
    (h : scheme = [] ∨ (isScheme scheme = true ∧ scheme.map Char.toLower = scheme)) :
    splitScheme ((if scheme = [] then [] else scheme++[':'])++ '/'::rest) = (scheme,'/'::rest) := by
  rcases h with rfl | ⟨ok,lower⟩
  · rw [if_pos rfl,nil_append,splitScheme,if_neg]
    intro found
    have first := found.2
    simp [cut,isScheme] at first
  · have some_ : scheme ≠ [] := fun none => by
      rw [none] at ok
      cases ok
    have colon : ':' ∉ scheme := fun there => by
      rw [isScheme,Bool.and_eq_true,all_eq_true] at ok
      exact absurd (ok.2 _ there) (by decide)
    have parts : cut ':' (scheme++ ':':: '/'::rest) = (scheme,'/'::rest) := cut_append colon
    rw [if_neg some_,append_assoc,singleton_append,splitScheme,parts,if_pos ⟨by simp,ok⟩,lower]

theorem clean_unparse {rest : Text} (h : scheme = [] ∨ isScheme scheme = true)
    (keeps : ∀ c ∈ rest, kept c = true) :
    clean ((if scheme = [] then [] else scheme++[':'])++ '/'::rest) =
      (if scheme = [] then [] else scheme++[':'])++ '/'::rest := by
  have slash : kept '/' = true := by decide
  rcases h with rfl | ok
  · rw [if_pos rfl,nil_append,clean,dropWhile_cons_of_neg (by decide)]
    exact filter_eq_self.2 fun c hc => by
      rcases mem_cons.1 hc with rfl | hc
      · exact slash
      · exact keeps c hc
  · rw [isScheme,Bool.and_eq_true,all_eq_true] at ok
    obtain ⟨first,all⟩ := ok
    cases scheme with
    | nil => simp at first
    | cons c scheme =>
      have alpha : c.isAlpha = true := by simpa using first
      have above : ¬c.toNat ≤ 32 := by
        delta Char.isAlpha Char.isUpper Char.isLower at alpha
        simp only [Bool.or_eq_true,Bool.and_eq_true,decide_eq_true_eq,UInt32.le_iff_toNat_le,
          ge_iff_le] at alpha
        have value : c.toNat = c.val.toNat := rfl
        have a : 'A'.val.toNat = 65 := rfl
        have b : 'a'.val.toNat = 97 := rfl
        omega
      rw [if_neg (cons_ne_nil _ _),clean,cons_append,cons_append,
        dropWhile_cons_of_neg (by simpa using above)]
      refine filter_eq_self.2 fun d hd => ?_
      rcases mem_cons.1 hd with rfl | hd
      · exact (schemeChar_lower (all _ mem_cons_self)).2.2.2.1
      rcases mem_append.1 hd with hd | hd
      · rcases mem_append.1 hd with hd | hd
        · exact (schemeChar_lower (all _ (mem_cons_of_mem _ hd))).2.2.2.1
        · rw [mem_singleton.1 hd]
          decide
      · rcases mem_cons.1 hd with rfl | hd
        · exact slash
        · exact keeps d hd

/-- What was parsed is parsed again from what it is put together to. -/
theorem urlparse_urlunparse {accepts : Text → Bool} (h : p.Proper)
    (netloc : NetlocText p.netloc) (ok : accepts p.netloc = true) :
    urlparse accepts (urlunparse p) = some p := by
  have keeps : ∀ c ∈ '/'::(p.netloc++p.target), kept c = true := by
    intro c hc
    rcases mem_cons.1 hc with rfl | hc
    · decide
    · rcases mem_append.1 hc with hc | hc
      · exact (netloc c hc).2
      · exact h.target_kept c hc
  obtain ⟨hash,mark⟩ := h.cuts
  rw [h.unparse,urlparse,clean_unparse (h.scheme.imp_right And.left) keeps,
    splitScheme_unparse h.scheme,splitNetloc_append netloc h.target_stops]
  simp only [hash,mark,h.split,ok,if_true]

/-- Another network location leaves the other parts as they are. -/
theorem ParseResult.Proper.relocate (h : p.Proper) (netloc : Text) :
    ({ p with netloc := netloc } : ParseResult).Proper :=
  ⟨h.scheme,h.rooted,h.pathText,h.queryText,h.fragmentText,h.split⟩

end UrlText
