import Mathlib.Data.List.DropRight

/-!
# Paths and contents of files

Paths with slashes as texts, made shortest without looking at any file, and a
directory joined with a name. A name that is one plain element stays the end of
what it is joined to, so different names do not meet, whatever the directories.

A content that is written over an older one from its start leaves the older
one's tail. What comes of any such writes is pieced together from them.
-/

namespace Lib

-- ---------------------------------------------------------------------------
-- Paths
-- ---------------------------------------------------------------------------

def pathElement (rooted : Bool) (out : List (List Char)) (e : List Char) : List (List Char) :=
  if e = [] ∨ e = ['.'] then out
  else if e = ['.', '.'] then
    match out.getLast? with
    | some last => if last = ['.', '.'] then out ++ [e] else out.dropLast
    | none => if rooted then [] else [e]
  else out ++ [e]

def cleanPath (path : List Char) : List Char :=
  let rooted : Bool := path.head? = some '/'
  let out := (path.splitOn '/').foldl (pathElement rooted) []
  if rooted then '/' :: ['/'].intercalate out
  else if out = [] then ['.']
  else ['/'].intercalate out

/-- An empty directory is left out. -/
def joinPath (dir name : String) : String :=
  if dir = "" ∧ name = "" then ""
  else String.ofList (cleanPath (if dir = "" then name.toList else dir.toList ++ '/' :: name.toList))

example : joinPath "/tmp/./geoip/" "v4-cn.cidr" = "/tmp/geoip/v4-cn.cidr" := by decide
example : joinPath "../x" "a/../../b" = "../b" := by decide

/-- One element, which no cleaning takes away. -/
structure PlainName (name : List Char) : Prop where
  nonempty : name ≠ []
  dot : name ≠ ['.']
  dots : name ≠ ['.', '.']
  slash : '/' ∉ name

def IsBase (base : List Char) : Prop := base.getLast? = none ∨ base.getLast? = some '/'

variable {path name name' base base' : List Char} {dir dir' : String}

theorem PlainName.element (h : PlainName name) (rooted : Bool) (out : List (List Char)) :
    pathElement rooted out name = out ++ [name] := by
  rw [pathElement, if_neg (not_or.mpr ⟨h.nonempty, h.dot⟩), if_neg h.dots]

theorem intercalate_concat (name : List Char) (out : List (List Char)) :
    ∃ base, IsBase base ∧ ['/'].intercalate (out ++ [name]) = base ++ name := by
  induction out with
  | nil => exact ⟨[], .inl rfl, by simp [List.intercalate]⟩
  | cons e out ih =>
    obtain ⟨base, hbase, heq⟩ := ih
    refine ⟨e ++ '/' :: base, ?_, ?_⟩
    · rcases hbase with hnone | hslash
      · rw [List.getLast?_eq_none_iff] at hnone
        exact .inr (by simp [hnone])
      · exact .inr (by simp [List.getLast?_append, List.getLast?_cons, hslash])
    · rw [List.cons_append, List.intercalate_cons_of_ne_nil (by simp), heq]
      simp

theorem cleanPath_concat (h : PlainName name) (path : List Char) :
    ∃ base, IsBase base ∧ cleanPath (path ++ '/' :: name) = base ++ name := by
  obtain ⟨base, hbase, heq⟩ := intercalate_concat name
    ((path.splitOn '/').foldl (pathElement ((path ++ '/' :: name).head? = some '/')) [])
  have hout : ((path ++ '/' :: name).splitOn '/').foldl (pathElement ((path ++ '/' :: name).head? = some '/')) [] =
      (path.splitOn '/').foldl (pathElement ((path ++ '/' :: name).head? = some '/')) [] ++ [name] := by
    rw [List.splitOn_append_cons_self, List.splitOn_eq_singleton h.slash, List.foldl_append, List.foldl_cons,
      List.foldl_nil, h.element]
  rw [cleanPath, hout, heq]
  split
  · refine ⟨'/' :: base, ?_, rfl⟩
    rcases hbase with hnone | hslash
    · rw [List.getLast?_eq_none_iff] at hnone
      exact .inr (by simp [hnone])
    · exact .inr (by simp [List.getLast?_cons, hslash])
  · exact ⟨base, hbase, if_neg (by simp)⟩

theorem cleanPath_plain (h : PlainName name) : cleanPath name = name := by
  obtain ⟨c, cs, rfl⟩ := List.exists_cons_of_ne_nil h.nonempty
  have hc : c ≠ '/' := fun hc => h.slash (hc ▸ List.mem_cons_self)
  rw [cleanPath, List.splitOn_eq_singleton h.slash, List.foldl_cons, List.foldl_nil, h.element]
  simp [hc, List.intercalate]

theorem joinPath_base (h : PlainName name) (dir : String) :
    ∃ base, IsBase base ∧ (joinPath dir (String.ofList name)).toList = base ++ name := by
  have hname : String.ofList name ≠ "" := fun heq => h.nonempty (by simpa using congrArg String.toList heq)
  rw [joinPath, if_neg fun hboth => hname hboth.2, String.toList_ofList, String.toList_ofList]
  split
  · exact ⟨[], .inl rfl, cleanPath_plain h⟩
  · exact cleanPath_concat h dir.toList

theorem rtakeWhile_base (hbase : IsBase base) (h : '/' ∉ name) : (base ++ name).rtakeWhile (· ≠ '/') = name := by
  have hall : ∀ c ∈ name.reverse, (decide (c ≠ '/')) = true :=
    fun c hc => decide_eq_true fun heq => h (heq ▸ List.mem_reverse.mp hc)
  have hnone : base.reverse.takeWhile (· ≠ '/') = [] := by
    rw [IsBase, ← List.head?_reverse] at hbase
    cases hrev : base.reverse with
    | nil => rfl
    | cons c cs =>
      rw [hrev] at hbase
      obtain rfl : c = '/' := by simpa using hbase
      rfl
  rw [List.rtakeWhile, List.reverse_append, List.takeWhile_append_of_pos hall, hnone, List.append_nil,
    List.reverse_reverse]

theorem name_eq_of_joinPath_eq (h : PlainName name) (h' : PlainName name')
    (heq : joinPath dir (String.ofList name) = joinPath dir' (String.ofList name')) : name = name' := by
  obtain ⟨base, hbase, hpath⟩ := joinPath_base h dir
  obtain ⟨base', hbase', hpath'⟩ := joinPath_base h' dir'
  rw [heq, hpath'] at hpath
  rw [← rtakeWhile_base hbase h.slash, ← hpath, rtakeWhile_base hbase' h'.slash]

-- ---------------------------------------------------------------------------
-- Contents
-- ---------------------------------------------------------------------------

variable {α : Type} {front old content body : List α} {bodies bodies' : List (List α)}

def writeOver (front old : List α) : List α := front ++ old.drop front.length

def Pieced (bodies : List (List α)) (content : List α) : Prop :=
  ∀ (i : Nat) (a : α), content[i]? = some a → ∃ b ∈ bodies, b[i]? = some a

theorem pieced_nil (bodies : List (List α)) : Pieced bodies [] := by
  intro i a h
  cases h

theorem pieced_take (h : body ∈ bodies) (n : Nat) : Pieced bodies (body.take n) := by
  intro i a hi
  rw [List.getElem?_take] at hi
  split at hi
  next => exact ⟨body, h, hi⟩
  next => cases hi

theorem Pieced.mono (h : Pieced bodies content) (hsub : ∀ b ∈ bodies, b ∈ bodies') : Pieced bodies' content := by
  intro i a hi
  obtain ⟨b, hb, hbi⟩ := h i a hi
  exact ⟨b, hsub b hb, hbi⟩

theorem Pieced.writeOver (hfront : Pieced bodies front) (hold : Pieced bodies old) :
    Pieced bodies (writeOver front old) := by
  intro i a hi
  rw [Lib.writeOver] at hi
  rcases Nat.lt_or_ge i front.length with hlt | hge
  · rw [List.getElem?_append_left hlt] at hi
    exact hfront i a hi
  · rw [List.getElem?_append_right hge, List.getElem?_drop, Nat.add_sub_cancel' hge] at hi
    exact hold i a hi

theorem Pieced.beginning (h : Pieced bodies content) (hone : ∀ b ∈ bodies, b = body) : content <+: body := by
  rw [List.prefix_iff_getElem?]
  intro i hi
  obtain ⟨b, hb, hbi⟩ := h i content[i] (List.getElem?_eq_getElem hi)
  rw [← hone b hb]
  exact hbi

end Lib
