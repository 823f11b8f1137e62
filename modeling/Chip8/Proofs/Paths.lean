import Chip8.Path
import Mathlib.Data.List.Basic
import Mathlib.Tactic.Linarith

/-! # What paths come to

The parts of a path are the root or the dot that it begins with, and the pieces that name something.
The parent of a path is its shortest beginning that has all of its parts but the last. A path that
continues another has the parts of the first and then its own.
-/

namespace Chip8

namespace Path

/-- What stands in front of the names. A path that begins at the root has an empty piece there. -/
def front (pieces : List String) : List String :=
  if pieces.head? = some "" ∧ pieces ≠ [""] then ["/"]
  else if pieces.head? = some "." then ["."]
  else []

def partsOf (pieces : List String) : List String := front pieces ++ named pieces

def parts (path : String) : List String := partsOf (pieces path)

/-! ## Pieces -/

theorem splitOn_append (xs ys : List Char) : ∃ init q h tail, xs.splitOn '/' = init ++ [q] ∧
    ys.splitOn '/' = h :: tail ∧ (xs ++ ys).splitOn '/' = init ++ (q ++ h) :: tail := by
  induction xs with
  | nil =>
    obtain ⟨h, tail, hys⟩ := List.exists_cons_of_ne_nil (ys.splitOn_ne_nil '/')
    exact ⟨[], [], h, tail, List.splitOn_nil _, hys, hys⟩
  | cons x xs ih =>
    obtain ⟨init, q, h, tail, hxs, hys, happend⟩ := ih
    rw [List.cons_append, List.splitOn_cons_eq_if_modifyHead, hxs,
      List.splitOn_cons_eq_if_modifyHead, happend]
    split
    · exact ⟨[] :: init, q, h, tail, rfl, hys, rfl⟩
    · cases init with
      | nil => exact ⟨[], x :: q, h, tail, rfl, hys, rfl⟩
      | cons first init => exact ⟨(x :: first) :: init, q, h, tail, rfl, hys, rfl⟩

/-- Where two texts meet their pieces flow into one. -/
theorem pieces_append (s t : String) : ∃ init q h tail, pieces s = init ++ [q] ∧
    pieces t = h :: tail ∧ pieces (s ++ t) = init ++ (q ++ h) :: tail := by
  obtain ⟨init, q, h, tail, hs, ht, happend⟩ := splitOn_append s.toList t.toList
  refine ⟨init.map .ofList, .ofList q, .ofList h, tail.map .ofList, ?_, ?_, ?_⟩
  · simp [pieces, hs]
  · simp [pieces, ht]
  · simp [pieces, happend, String.ofList_append]

theorem pieces_append_slash (s t : String) : pieces (s ++ "/" ++ t) = pieces s ++ pieces t := by
  have htext : (s ++ "/" ++ t).toList = s.toList ++ '/' :: t.toList := by
    simp [String.toList_append]
  rw [pieces, htext, List.splitOn_append_cons_self, List.map_append]
  rfl

theorem pieces_ne_nil (path : String) : pieces path ≠ [] := by
  simp [pieces, List.splitOn_ne_nil]

theorem intercalate_pieces (path : String) : String.intercalate "/" (pieces path) = path := by
  apply String.toList_inj.mp
  rw [String.toList_intercalate, pieces, List.map_map]
  have hid : String.toList ∘ String.ofList = id := by
    funext cs
    exact String.toList_ofList
  rw [hid, List.map_id]
  exact List.intercalate_splitOn '/'

theorem pieces_eq_empty_iff {path : String} : pieces path = [""] ↔ path = "" := by
  constructor
  · intro h
    rw [← intercalate_pieces path, h]
    rfl
  · rintro rfl
    rfl

theorem slash_notMem_splitOn (cs : List Char) : ∀ piece ∈ cs.splitOn '/', '/' ∉ piece := by
  induction cs with
  | nil => simp
  | cons c cs ih =>
    obtain ⟨first, rest, hcs⟩ := List.exists_cons_of_ne_nil (cs.splitOn_ne_nil '/')
    rw [List.splitOn_cons_eq_if_modifyHead]
    split
    · simpa using ih
    · rename_i hc
      rw [hcs] at ih ⊢
      obtain ⟨hfirst, hrest⟩ := List.forall_mem_cons.mp ih
      refine List.forall_mem_cons.mpr ⟨?_, hrest⟩
      rintro (_ | ⟨_, hmem⟩)
      · simp at hc
      · exact hfirst hmem

theorem slash_notMem_piece {path piece : String} (h : piece ∈ pieces path) :
    '/' ∉ piece.toList := by
  obtain ⟨cs, hcs, rfl⟩ := List.mem_map.mp h
  rw [String.toList_ofList]
  exact slash_notMem_splitOn path.toList cs hcs

theorem pieces_intercalate {ps : List String} (hne : ps ≠ [])
    (hps : ∀ piece ∈ ps, '/' ∉ piece.toList) : pieces (String.intercalate "/" ps) = ps := by
  have hsplit : (List.intercalate ['/'] (ps.map String.toList)).splitOn '/' =
      ps.map String.toList := by
    apply List.splitOn_intercalate
    · intro cs hcs
      obtain ⟨piece, hpiece, rfl⟩ := List.mem_map.mp hcs
      exact hps piece hpiece
    · simpa using hne
  have hid : String.ofList ∘ String.toList = id := by
    funext piece
    exact String.ofList_toList
  rw [pieces, String.toList_intercalate]
  exact (congrArg _ hsplit).trans (by rw [List.map_map, hid, List.map_id])

theorem isAbsolute_iff {path : String} :
    isAbsolute path = true ↔ (pieces path).head? = some "" ∧ pieces path ≠ [""] := by
  rw [Ne, pieces_eq_empty_iff, ← String.toList_eq_nil_iff, isAbsolute, pieces]
  cases path.toList with
  | nil => simp
  | cons c cs =>
    obtain ⟨first, rest, hcs⟩ := List.exists_cons_of_ne_nil (cs.splitOn_ne_nil '/')
    rw [List.splitOn_cons_eq_if_modifyHead, hcs]
    by_cases hc : c = '/' <;> simp [hc]

/-! ## Parts -/

theorem front_append {ps qs : List String} (hne : ps ≠ []) (hempty : ps ≠ [""]) :
    front (ps ++ qs) = front ps := by
  cases ps with
  | nil => exact absurd rfl hne
  | cons p ps =>
    have hlong : p :: ps ++ qs = [""] → p :: ps = [""] := by
      intro h
      obtain ⟨rfl, hrest⟩ := List.cons.inj h
      rw [(List.append_eq_nil_iff.mp hrest).1]
    grind [front]

theorem named_append (ps qs : List String) : named (ps ++ qs) = named ps ++ named qs :=
  List.filter_append ps qs

theorem partsOf_append {ps qs : List String} (hne : ps ≠ []) (hempty : ps ≠ [""]) :
    partsOf (ps ++ qs) = partsOf ps ++ named qs := by
  rw [partsOf, front_append hne hempty, named_append, ← List.append_assoc]
  rfl

theorem partsOf_root {qs : List String} (hne : qs ≠ []) :
    partsOf ("" :: qs) = "/" :: named qs := by
  simp [partsOf, front, named, hne]

theorem named_singleton {p : String} (hp : p ≠ "") (hdot : p ≠ ".") : named [p] = [p] := by
  simp [named, hp, hdot]

theorem partsOf_singleton {p : String} (hp : p ≠ "") : partsOf [p] = [p] := by
  by_cases hdot : p = "."
  · subst hdot
    rfl
  · simp [partsOf, front, named, hp, hdot]

/-- Only the empty path has no parts. -/
theorem parts_eq_nil_iff {path : String} : parts path = [] ↔ path = "" := by
  rw [← pieces_eq_empty_iff]
  constructor
  · intro h
    obtain ⟨p, ps, hps⟩ := List.exists_cons_of_ne_nil (pieces_ne_nil path)
    rw [parts, hps] at h
    rw [hps]
    by_contra hempty
    by_cases hp : p = ""
    · subst hp
      have hne : ps ≠ [] := fun h => hempty (by rw [h])
      simp [partsOf_root hne] at h
    · have hsplit : p :: ps = [p] ++ ps := rfl
      rw [hsplit, partsOf_append (by simp) (by simpa using hp), partsOf_singleton hp] at h
      cases h
  · intro h
    rw [parts, h]
    rfl

/-! ## The end of a path -/

theorem trimEnd_suffix (ps : List String) : trimEnd ps <:+ ps := by
  induction ps with
  | nil => exact List.suffix_refl []
  | cons p ps ih =>
    rw [trimEnd]
    split
    · exact ih.trans (List.suffix_cons p ps)
    · exact List.suffix_refl _

theorem trimEnd_eq_cons {ps rest : List String} {q : String} (h : trimEnd ps = q :: rest) :
    q ≠ "" ∧ (q = "." → rest = []) := by
  induction ps with
  | nil => cases h
  | cons p ps ih =>
    rw [trimEnd] at h
    split at h
    · exact ih h
    · rename_i hkept
      obtain ⟨rfl, rfl⟩ := List.cons.inj h
      simpa using hkept

/-- Where nothing is left of pieces, there is at most the root in front of them. -/
theorem reverse_of_trimEnd_eq_nil {ps : List String} (hne : ps ≠ []) (h : trimEnd ps = []) :
    ∃ silent, ps.reverse = "" :: silent ∧ named silent = [] := by
  induction ps with
  | nil => exact absurd rfl hne
  | cons p ps ih =>
    rw [trimEnd] at h
    split at h
    case isFalse => cases h
    case isTrue hp =>
      by_cases hps : ps = []
      · subst hps
        obtain rfl : p = "" := by simpa using hp
        exact ⟨[], rfl, rfl⟩
      · obtain ⟨silent, hsilent, hnamed⟩ := ih hps h
        refine ⟨silent ++ [p], by rw [List.reverse_cons, hsilent]; rfl, ?_⟩
        obtain rfl | ⟨rfl, -⟩ := hp <;> simpa [named] using hnamed

theorem partsOf_trimEnd {ps : List String} (h : trimEnd ps ≠ []) :
    partsOf (trimEnd ps).reverse = partsOf ps.reverse := by
  induction ps with
  | nil => rfl
  | cons p ps ih =>
    rw [trimEnd] at h ⊢
    split
    case isFalse => rfl
    case isTrue hp =>
      rw [if_pos hp] at h
      have hne : ps.reverse ≠ [] := by
        rw [Ne, List.reverse_eq_nil_iff]
        rintro rfl
        exact h rfl
      have hempty : ps.reverse ≠ [""] := by
        rw [Ne, List.reverse_eq_iff]
        rintro rfl
        exact h rfl
      have hsilent : named [p] = [] := by
        obtain rfl | ⟨rfl, -⟩ := hp <;> rfl
      rw [ih h, List.reverse_cons, partsOf_append hne hempty, hsilent, List.append_nil]

/-! ## Beginnings of a path -/

/-- How many characters the parts have. -/
def size (ps : List String) : Nat := ((partsOf ps).map String.length).sum

def span (ps : List String) : Nat := ((named ps).map String.length).sum

theorem span_append (ps qs : List String) : span (ps ++ qs) = span ps + span qs := by
  simp [span, named]

theorem span_cons (p : String) (ps : List String) :
    span (p :: ps) = (if p = "." then 0 else p.length) + span ps := by
  by_cases hp : p = ""
  · subst hp
    simp [span, named]
  · by_cases hdot : p = "." <;> simp [span, named, hp, hdot]

theorem size_singleton (p : String) : size [p] = p.length := by
  by_cases hp : p = ""
  · subst hp
    rfl
  · simp [size, partsOf_singleton hp]

theorem size_append {ps qs : List String} (hne : ps ≠ []) (hempty : ps ≠ [""]) :
    size (ps ++ qs) = size ps + span qs := by
  simp [size, span, partsOf_append hne hempty]

theorem size_root {qs : List String} (hne : qs ≠ []) : size ("" :: qs) = 1 + span qs := by
  have hslash : "/".length = 1 := rfl
  simp [size, span, partsOf_root hne, hslash]

theorem length_pos {p : String} (hp : p ≠ "") : 0 < p.length := by
  rw [Nat.pos_iff_ne_zero, Ne, String.length_eq_zero_iff]
  exact hp

theorem span_singleton_le (q r : String) : span [q] ≤ span [q ++ r] := by
  rw [span_cons, span_cons]
  by_cases hr : r = ""
  · simp [hr]
  · have hpos := length_pos hr
    have happend := String.length_append q r
    by_cases hdot : q ++ r = "."
    · have hone : (q ++ r).length = 1 := by rw [hdot]; rfl
      have hq : q = "" := String.length_eq_zero_iff.mp (by omega)
      simp [hq]
    · rw [if_neg hdot]
      split <;> omega

theorem span_singleton_lt {q r : String} (hr : r ≠ "") (hdot : q ++ r ≠ ".") :
    span [q] < span [q ++ r] := by
  have hpos := length_pos hr
  have happend := String.length_append q r
  rw [span_cons, span_cons, if_neg hdot]
  split <;> omega

/-- The last piece is the last part. -/
def Bare (ps : List String) : Prop :=
  ∃ init p, ps = init ++ [p] ∧ p ≠ "" ∧ (p = "." → init = [])

theorem Bare.span_pos {init rest : List String} (hbare : Bare (init ++ rest)) (hinit : init ≠ [])
    (hrest : rest ≠ []) : 0 < span rest := by
  obtain ⟨before, p, hsplit, hp, hdot⟩ := hbare
  obtain ⟨mid, last, rfl⟩ := (List.eq_nil_or_concat rest).resolve_left hrest
  rw [List.concat_eq_append, ← List.append_assoc] at hsplit
  obtain ⟨hbefore, hlast⟩ := List.append_inj' hsplit rfl
  obtain rfl : last = p := by simpa using hlast
  have hname : last ≠ "." := by
    rintro rfl
    rw [hdot rfl] at hbefore
    exact hinit (List.append_eq_nil_iff.mp hbefore).1
  have hpos := length_pos hp
  rw [List.concat_eq_append, span_append, span_cons, if_neg hname]
  omega

theorem span_lt {init rest : List String} {q r : String}
    (hbare : Bare (init ++ (q ++ r) :: rest)) (hinit : init ≠ []) (hmore : r ≠ "" ∨ rest ≠ []) :
    span [q] < span ((q ++ r) :: rest) := by
  by_cases hrest : rest = []
  · subst hrest
    refine span_singleton_lt (hmore.resolve_right (not_not_intro rfl)) ?_
    intro hdot
    have hpos := hbare.span_pos hinit (List.cons_ne_nil _ _)
    rw [hdot] at hpos
    exact absurd hpos (by decide)
  · have hsplit : init ++ (q ++ r) :: rest = (init ++ [q ++ r]) ++ rest := by simp
    rw [hsplit] at hbare
    have hpos := hbare.span_pos (by simp) hrest
    have hle := span_singleton_le q r
    have happend : span ((q ++ r) :: rest) = span [q ++ r] + span rest := span_append [q ++ r] rest
    omega

theorem size_lt {init rest : List String} {q r : String}
    (hbare : Bare (init ++ (q ++ r) :: rest)) (hmore : r ≠ "" ∨ rest ≠ []) :
    size (init ++ [q]) < size (init ++ (q ++ r) :: rest) := by
  by_cases hinit : init = []
  · subst hinit
    rw [List.nil_append, List.nil_append, size_singleton]
    have happend := String.length_append q r
    by_cases hrest : rest = []
    · subst hrest
      have hpos := length_pos (hmore.resolve_right (not_not_intro rfl))
      rw [size_singleton]
      omega
    · have hpos := @Bare.span_pos [q ++ r] rest hbare (by simp) hrest
      by_cases hempty : q ++ r = ""
      · rw [hempty] at happend ⊢
        rw [size_root hrest]
        have hzero : "".length = 0 := rfl
        omega
      · have hcons : (q ++ r) :: rest = [q ++ r] ++ rest := rfl
        rw [hcons, size_append (by simp) (by simpa using hempty), size_singleton]
        omega
  · have hlt := span_lt hbare hinit hmore
    by_cases hroot : init = [""]
    · subst hroot
      rw [List.singleton_append, List.singleton_append, size_root (by simp), size_root (by simp)]
      omega
    · rw [size_append hinit hroot, size_append hinit hroot]
      omega

/-- A text whose last piece is its last part has other parts than every shorter beginning. -/
theorem eq_of_parts_eq {dir other : String} (hbare : Bare (pieces dir))
    (hbegins : other.toList <+: dir.toList) (hparts : parts other = parts dir) : other = dir := by
  obtain ⟨tail, htail⟩ := hbegins
  have hdir : dir = other ++ String.ofList tail := by
    apply String.toList_inj.mp
    rw [String.toList_append, String.toList_ofList, htail]
  obtain ⟨init, q, r, rest, hother, hmeet, happend⟩ := pieces_append other (String.ofList tail)
  rw [← hdir] at happend
  by_contra hne
  have hmore : r ≠ "" ∨ rest ≠ [] := by
    by_contra hnone
    obtain ⟨rfl, rfl⟩ : r = "" ∧ rest = [] := by simpa [not_or] using hnone
    rw [pieces_eq_empty_iff.mp hmeet, String.append_empty] at hdir
    exact hne hdir.symm
  rw [happend] at hbare
  have hlt := size_lt hbare hmore
  have hsize : size (pieces other) = size (pieces dir) := by
    rw [size, size]
    exact congrArg (fun ps => (ps.map String.length).sum) hparts
  rw [hother, happend] at hsize
  omega

/-! ## The parent -/

/-- The shortest beginning of a path that has all of its parts but the last. -/
structure Above (path dir : String) : Prop where
  parts : parts dir = (parts path).dropLast
  begins : dir.toList <+: path.toList
  least : ∀ other : String, other.toList <+: path.toList →
    Path.parts other = (Path.parts path).dropLast → dir.toList <+: other.toList

theorem Above.unique {path first second : String} (h : Above path first) (h' : Above path second) :
    first = second := by
  have hle := h.least second h'.begins h'.parts
  have hge := h'.least first h.begins h.parts
  exact String.toList_inj.mp (hle.eq_of_length_le hge.length_le)

theorem eq_intercalate_append {path : String} {ps qs : List String}
    (h : pieces path = ps ++ qs) (hps : ps ≠ []) (hqs : qs ≠ []) :
    path = String.intercalate "/" ps ++ "/" ++ String.intercalate "/" qs := by
  have hfree : ∀ piece ∈ ps ++ qs, '/' ∉ piece.toList := by
    intro piece hpiece
    exact slash_notMem_piece (h ▸ hpiece)
  obtain ⟨hfirst, hsecond⟩ := List.forall_mem_append.mp hfree
  have hsame : pieces (String.intercalate "/" ps ++ "/" ++ String.intercalate "/" qs) =
      pieces path := by
    rw [pieces_append_slash, pieces_intercalate hps hfirst, pieces_intercalate hqs hsecond, h]
  rw [← intercalate_pieces path, ← hsame, intercalate_pieces]

/-- The directory of a path, and the part that stands behind it. -/
structure Divides (path dir last : String) : Prop where
  parent : parent? path = some dir
  name : last ≠ "/"
  parts : parts path = parts dir ++ [last]
  begins : dir.toList <+: path.toList
  bare : dir = "" ∨ dir = "/" ∨ Bare (pieces dir)

section Divides

variable {path last : String} {rest : List String}

theorem Divides.above {dir : String} (h : Divides path dir last) : Above path dir := by
  have hdrop : (Path.parts path).dropLast = Path.parts dir := by
    rw [h.parts, List.dropLast_concat]
  refine ⟨hdrop.symm, h.begins, ?_⟩
  intro other hother hsame
  rw [hdrop] at hsame
  obtain hle | hge := List.prefix_or_prefix_of_prefix h.begins hother
  · exact hle
  · obtain rfl | rfl | hbare := h.bare
    · exact List.nil_prefix
    · have hroot : other.toList <+: '/' :: [] := hge
      obtain hempty | ⟨tail, htail, hnil⟩ := List.prefix_cons_iff.mp hroot
      · rw [String.toList_eq_nil_iff.mp hempty] at hsame
        cases hsame
      · rw [List.prefix_nil.mp hnil] at htail
        exact htail ▸ List.prefix_refl _
    · obtain rfl := eq_of_parts_eq hbare hge hsame
      exact List.prefix_refl _

theorem pieces_of_trimEnd (hend : trimEnd (pieces path).reverse = last :: rest) :
    ∃ behind, pieces path = rest.reverse ++ last :: behind := by
  obtain ⟨behind, hbehind⟩ := trimEnd_suffix (pieces path).reverse
  rw [hend, ← List.reverse_eq_iff] at hbehind
  exact ⟨behind.reverse, by simpa using hbehind.symm⟩

theorem parts_of_trimEnd (hend : trimEnd (pieces path).reverse = last :: rest) :
    parts path = partsOf (rest.reverse ++ [last]) := by
  rw [parts, ← List.reverse_reverse (pieces path), ← partsOf_trimEnd (by simp [hend]), hend,
    List.reverse_cons]

theorem name_of_trimEnd (hend : trimEnd (pieces path).reverse = last :: rest) : last ≠ "/" := by
  obtain ⟨behind, hpieces⟩ := pieces_of_trimEnd hend
  rintro rfl
  exact slash_notMem_piece (by simp [hpieces] : "/" ∈ pieces path) (by decide)

theorem divides_alone (hend : trimEnd (pieces path).reverse = [last]) : Divides path "" last := by
  obtain ⟨hlast, -⟩ := trimEnd_eq_cons hend
  obtain ⟨behind, hpieces⟩ := pieces_of_trimEnd hend
  have hrelative : isAbsolute path ≠ true := by
    rw [Ne, isAbsolute_iff, hpieces]
    simp [hlast]
  have hparts : parts path = parts "" ++ [last] :=
    (parts_of_trimEnd hend).trans (partsOf_singleton hlast)
  refine ⟨?_, name_of_trimEnd hend, hparts, List.nil_prefix, .inl rfl⟩
  rw [parent?, hend]
  simp [hrelative, trimEnd]

theorem divides_root (hend : trimEnd (pieces path).reverse = last :: rest) (hrest : rest ≠ [])
    (habove : trimEnd rest = []) : Divides path "/" last := by
  obtain ⟨hlast, hdot⟩ := trimEnd_eq_cons hend
  obtain ⟨behind, hpieces⟩ := pieces_of_trimEnd hend
  obtain ⟨silent, hfront, hsilent⟩ := reverse_of_trimEnd_eq_nil hrest habove
  have habsolute : isAbsolute path = true := by
    rw [isAbsolute_iff, hpieces, hfront]
    simp
  have hnamed : named (silent ++ [last]) = [last] := by
    rw [named_append, hsilent, named_singleton hlast fun h => hrest (hdot h), List.nil_append]
  have hparts : parts path = parts "/" ++ [last] := by
    rw [parts_of_trimEnd hend, hfront, List.cons_append, partsOf_root (by simp), hnamed]
    rfl
  have hbegins : "/".toList <+: path.toList := by
    obtain ⟨tail, htail⟩ := List.head?_eq_some_iff.mp (of_decide_eq_true habsolute)
    exact ⟨tail, htail.symm⟩
  refine ⟨?_, name_of_trimEnd hend, hparts, hbegins, .inr (.inl rfl)⟩
  rw [parent?, hend]
  simp [habsolute, habove]

theorem splits_above (hend : trimEnd (pieces path).reverse = last :: rest) :
    ∃ behind, behind ≠ [] ∧ pieces path = (trimEnd rest).reverse ++ behind := by
  obtain ⟨behind, hpieces⟩ := pieces_of_trimEnd hend
  obtain ⟨silent, hsilent⟩ := trimEnd_suffix rest
  have hreverse : rest.reverse = (trimEnd rest).reverse ++ silent.reverse := by
    rw [← List.reverse_append, hsilent]
  exact ⟨silent.reverse ++ last :: behind, by simp, by rw [hpieces, hreverse, List.append_assoc]⟩

theorem pieces_above (hend : trimEnd (pieces path).reverse = last :: rest)
    (habove : trimEnd rest ≠ []) :
    pieces (String.intercalate "/" (trimEnd rest).reverse) = (trimEnd rest).reverse := by
  obtain ⟨behind, -, hsplit⟩ := splits_above hend
  apply pieces_intercalate (by simpa using habove)
  intro piece hpiece
  exact slash_notMem_piece (hsplit ▸ List.mem_append_left _ hpiece)

theorem bare_trimEnd {ps : List String} (h : trimEnd ps ≠ []) : Bare (trimEnd ps).reverse := by
  obtain ⟨p, more, hmore⟩ := List.exists_cons_of_ne_nil h
  obtain ⟨hp, hfirst⟩ := trimEnd_eq_cons hmore
  refine ⟨more.reverse, p, by rw [hmore, List.reverse_cons], hp, ?_⟩
  intro hdot
  rw [hfirst hdot, List.reverse_nil]

theorem divides_inside (hend : trimEnd (pieces path).reverse = last :: rest)
    (habove : trimEnd rest ≠ []) :
    Divides path (String.intercalate "/" (trimEnd rest).reverse) last := by
  obtain ⟨hlast, hdot⟩ := trimEnd_eq_cons hend
  have hdir := pieces_above hend habove
  have hrest : rest ≠ [] := by
    rintro rfl
    exact habove rfl
  have hempty : rest.reverse ≠ [""] := by
    rw [Ne, List.reverse_eq_iff]
    rintro rfl
    exact habove rfl
  have hparts : parts path = parts (String.intercalate "/" (trimEnd rest).reverse) ++ [last] := by
    rw [parts_of_trimEnd hend, partsOf_append (by simpa using hrest) hempty,
      named_singleton hlast fun h => hrest (hdot h), parts, hdir, partsOf_trimEnd habove]
  have hbegins : (String.intercalate "/" (trimEnd rest).reverse).toList <+: path.toList := by
    obtain ⟨behind, hbehind, hsplit⟩ := splits_above hend
    conv_rhs => rw [eq_intercalate_append hsplit (by simpa using habove) hbehind]
    rw [String.toList_append, String.toList_append, List.append_assoc]
    exact List.prefix_append _ _
  have hbare : Bare (pieces (String.intercalate "/" (trimEnd rest).reverse)) := by
    rw [hdir]
    exact bare_trimEnd habove
  refine ⟨?_, name_of_trimEnd hend, hparts, hbegins, .inr (.inr hbare)⟩
  rw [parent?, hend]
  simp [habove]

end Divides

/-- Either nothing is left of a path but the root, or it has a part behind a directory. -/
theorem divides_or (path : String) :
    (parent? path = none ∧ (parts path = [] ∨ parts path = ["/"])) ∨
      ∃ dir last, Divides path dir last := by
  cases hend : trimEnd (pieces path).reverse with
  | nil =>
    obtain ⟨silent, hpieces, hnamed⟩ :=
      reverse_of_trimEnd_eq_nil (by simpa using pieces_ne_nil path) hend
    rw [List.reverse_reverse] at hpieces
    refine .inl ⟨by rw [parent?, hend], ?_⟩
    rw [parts, hpieces]
    by_cases hsilent : silent = []
    · subst hsilent
      exact .inl rfl
    · rw [partsOf_root hsilent, hnamed]
      exact .inr rfl
  | cons last rest =>
    refine .inr ?_
    by_cases hrest : rest = []
    · subst hrest
      exact ⟨"", last, divides_alone hend⟩
    · by_cases habove : trimEnd rest = []
      · exact ⟨"/", last, divides_root hend hrest habove⟩
      · exact ⟨_, last, divides_inside hend habove⟩

theorem parent?_eq_none_iff {path : String} :
    parent? path = none ↔ parts path = [] ∨ parts path = ["/"] := by
  obtain ⟨hnone, hparts⟩ | ⟨dir, last, h⟩ := divides_or path
  · exact iff_of_true hnone hparts
  · refine iff_of_false (by simp [h.parent]) ?_
    rw [h.parts]
    rintro (hnil | hroot)
    · simp at hnil
    · obtain ⟨-, hlast⟩ := List.append_inj' (hroot.trans (List.nil_append ["/"]).symm) rfl
      exact h.name (List.singleton_inj.mp hlast)

theorem above_of_parent? {path dir : String} (hparent : parent? path = some dir) :
    Above path dir := by
  obtain ⟨hnone, -⟩ | ⟨other, last, h⟩ := divides_or path
  · rw [hnone] at hparent
    cases hparent
  · rw [h.parent] at hparent
    cases hparent
    exact h.above

/-! ## Paths that continue others -/

theorem parts_append_slash {base path : String} (hbase : base ≠ "") :
    parts (base ++ "/" ++ path) = parts base ++ named (pieces path) := by
  rw [parts, pieces_append_slash,
    partsOf_append (pieces_ne_nil base) (pieces_eq_empty_iff.not.mpr hbase)]
  rfl

theorem parts_slash_append (path : String) :
    parts ("/" ++ path) = "/" :: named (pieces path) := by
  have hpieces : pieces ("/" ++ path) = "" :: pieces path := pieces_append_slash "" path
  rw [parts, hpieces, partsOf_root (pieces_ne_nil path)]

/-- The text of a path that is found beside another. -/
inductive Beside (path rom : String) : String → Prop
  /-- It begins at the root, or the other lies in no directory. -/
  | itself (h : isAbsolute rom = true ∨ parts path = [] ∨ parts path = ["/"]) : Beside path rom rom
  /-- The other names its file alone. -/
  | here (hrelative : isAbsolute rom = false) (habove : Above path "") : Beside path rom rom
  | atRoot (hrelative : isAbsolute rom = false) (habove : Above path "/") :
      Beside path rom ("/" ++ rom)
  | inside {dir : String} (hrelative : isAbsolute rom = false) (habove : Above path dir)
      (hdir : dir ≠ "") (hroot : dir ≠ "/") : Beside path rom (dir ++ "/" ++ rom)

theorem Bare.ne_empty {dir : String} (hbare : Bare (pieces dir)) : dir ≠ "" := by
  rintro rfl
  obtain ⟨init, p, hpieces, hp, -⟩ := hbare
  obtain ⟨-, hempty⟩ := List.append_inj' ((List.nil_append [""]).trans hpieces) rfl
  exact hp (List.singleton_inj.mp hempty).symm

theorem Bare.getLast?_ne {dir : String} (hbare : Bare (pieces dir)) :
    dir.toList.getLast? ≠ some '/' := by
  intro hlast
  obtain ⟨cs, hcs⟩ := List.getLast?_eq_some_iff.mp hlast
  have hdir : dir = String.ofList cs ++ "/" ++ "" := by
    apply String.toList_inj.mp
    simp [hcs]
  obtain ⟨init, p, hpieces, hp, -⟩ := hbare
  rw [hdir, pieces_append_slash] at hpieces
  obtain ⟨-, hempty⟩ := List.append_inj' hpieces rfl
  exact hp (List.singleton_inj.mp hempty).symm

theorem Bare.ne_root {dir : String} (hbare : Bare (pieces dir)) : dir ≠ "/" := by
  rintro rfl
  exact hbare.getLast?_ne rfl

variable {path rom joined : String}

theorem join_of_absolute (hrom : isAbsolute rom = true) (base : String) : join base rom = rom :=
  if_pos hrom

theorem join_empty (rom : String) : join "" rom = rom := by
  simp [join]

theorem join_root (hrom : isAbsolute rom = false) : join "/" rom = "/" ++ rom := by
  simp [join, hrom]

theorem join_of_bare {dir : String} (hrom : isAbsolute rom = false) (hbare : Bare (pieces dir)) :
    join dir rom = dir ++ "/" ++ rom := by
  simp [join, hrom, hbare.ne_empty, hbare.getLast?_ne]

theorem beside_join {dir last : String} (h : Divides path dir last) (rom : String) :
    Beside path rom (join dir rom) := by
  cases hrom : isAbsolute rom with
  | true =>
    rw [join_of_absolute hrom]
    exact .itself (.inl hrom)
  | false =>
    have habove := h.above
    obtain rfl | rfl | hbare := h.bare
    · rw [join_empty]
      exact .here hrom habove
    · rw [join_root hrom]
      exact .atRoot hrom habove
    · rw [join_of_bare hrom hbare]
      exact .inside hrom habove hbare.ne_empty hbare.ne_root

theorem Beside.eq_join {dir last : String} (h : Divides path dir last)
    (hbeside : Beside path rom joined) : joined = join dir rom := by
  have habove := h.above
  cases hbeside with
  | itself hitself =>
    obtain hrom | hpath := hitself
    · exact (join_of_absolute hrom dir).symm
    · have hnone := parent?_eq_none_iff.mpr hpath
      rw [h.parent] at hnone
      cases hnone
  | here hrom hdir => rw [habove.unique hdir, join_empty]
  | atRoot hrom hdir => rw [habove.unique hdir, join_root hrom]
  | inside hrom hdir hne hroot =>
    rw [← habove.unique hdir] at hne hroot ⊢
    have hbare := (h.bare.resolve_left hne).resolve_left hroot
    rw [join_of_bare hrom hbare]

theorem beside_of_none (hpath : parent? path = none) (rom : String) : Beside path rom rom :=
  .itself (.inr (parent?_eq_none_iff.mp hpath))

theorem Beside.eq_of_none (hpath : parent? path = none) (hbeside : Beside path rom joined) :
    joined = rom := by
  have hdrop : (Path.parts path).dropLast = [] := by
    obtain hparts | hparts := parent?_eq_none_iff.mp hpath <;> rw [hparts] <;> rfl
  cases hbeside with
  | itself => rfl
  | here => rfl
  | atRoot hrom hdir =>
    have hparts := hdir.parts.trans hdrop
    cases hparts
  | inside hrom hdir hne => exact absurd (parts_eq_nil_iff.mp (hdir.parts.trans hdrop)) hne

/-- What lies beside a path in a directory has the parts of the directory and then its own. -/
theorem Beside.parts_eq (hbeside : Beside path rom joined) (hrom : isAbsolute rom = false)
    (hdir : (parts path).dropLast ≠ []) :
    parts joined = (parts path).dropLast ++ named (pieces rom) := by
  cases hbeside with
  | itself hitself =>
    obtain hroot | hpath | hpath := hitself
    · exact absurd (hroot.symm.trans hrom) (by decide)
    · exact absurd (congrArg List.dropLast hpath) hdir
    · exact absurd (congrArg List.dropLast hpath) hdir
  | here _ habove => exact absurd habove.parts.symm hdir
  | atRoot _ habove =>
    rw [parts_slash_append, ← habove.parts]
    rfl
  | inside _ habove hne => rw [parts_append_slash hne, habove.parts]

end Path

end Chip8
