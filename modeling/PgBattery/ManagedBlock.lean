import PgBattery.Search
import PgBattery.SqlReply

/-! The block a file is managed through: what stands between its markers is replaced, and what stands
outside of them is the user's. -/
namespace PgBattery
namespace ManagedBlock
open SqlReply Search List

section Source

def trimEnd (s : Text) : Text := s.rdropWhile whitespace

/-- What is kept in front of the block, set off by a blank line. -/
def above (text : Text) : Text := if trimEnd text ≠ [] then trimEnd text++['\n','\n'] else []

/-- What is kept behind the block, set off and ended by a line break. -/
def below (text : Text) : Text :=
  let text := text.dropWhile (· = '\n')
  if text ≠ [] then '\n' ::text++(if text.getLast? = some '\n' then [] else ['\n']) else []

def upsertManagedBlock (existing startMarker endMarker block : Text) : Text :=
  let found := (split startMarker existing).bind fun begun =>
    (split endMarker (startMarker++begun.2)).map fun ended => (begun.1,ended.2)
  match found with
  | some (before,after) => above before++trim block++['\n']++below after
  | none => above existing++trim block++['\n']

end Source

/-- Markers that are written on one line, without blanks at the ends that count, and do not run into each
other. -/
structure Markers where
  start : Text
  stop : Text
  start_line : '\n' ∉ start
  stop_line : '\n' ∉ stop
  start_first : start.head?.any (!whitespace ·) = true
  start_last : start.getLast?.any (!whitespace ·) = true
  stop_last : stop.getLast?.any (!whitespace ·) = true
  apart : Apart start stop

def configMarkers : Markers where
  start := "# BEGIN pgbattery managed config".toList
  stop := "# END pgbattery managed config".toList
  start_line := by decide
  stop_line := by decide
  start_first := by decide
  start_last := by decide
  stop_last := by decide
  apart := by unfold Apart; decide +kernel

def hbaMarkers : Markers where
  start := "# BEGIN pgbattery managed hba".toList
  stop := "# END pgbattery managed hba".toList
  start_line := by decide
  stop_line := by decide
  start_first := by decide
  start_last := by decide
  stop_last := by decide
  apart := by unfold Apart; decide +kernel

theorem Markers.start_ne (m : Markers) : m.start ≠ [] := by
  intro h
  have hf := m.start_first
  rw [h] at hf
  cases hf

theorem Markers.stop_ne (m : Markers) : m.stop ≠ [] := by
  intro h
  have hl := m.stop_last
  rw [h] at hl
  cases hl

variable {text x before rest inside after sep : Text}

section Blanks

variable {w : Text}

theorem trimEnd_append (hw : ∀ c ∈ w, whitespace c) (s : Text) : trimEnd (s++w) = trimEnd s := by
  induction w using List.reverseRecOn with
  | nil => rw [append_nil]
  | append_singleton w c ih =>
    have hc := hw c (mem_append_right w (mem_singleton_self c))
    rw [trimEnd,← append_assoc,rdropWhile_concat_pos _ _ _ hc]
    exact ih fun d hd => hw d (mem_append_left _ hd)

theorem trimEnd_trimEnd (s : Text) : trimEnd (trimEnd s) = trimEnd s := rdropWhile_idempotent _ _

theorem exists_trimEnd (s : Text) : ∃ w, (∀ c ∈ w, whitespace c) ∧ s = trimEnd s++w :=
  ⟨s.rtakeWhile whitespace,fun _ hc => mem_rtakeWhile_imp hc,
    (rdropWhile_append_rtakeWhile).symm⟩

theorem trim_append (hw : ∀ c ∈ w, whitespace c) (s : Text) : trim (s++w) = trim s := by
  rw [trim,trim,dropWhile_append]
  split
  · next he =>
    rw [List.isEmpty_iff.1 he,List.dropWhile_eq_nil_iff.2 hw]
  · exact trimEnd_append hw _

theorem trim_cons {c : Char} (hc : whitespace c) (s : Text) : trim (c::s) = trim s := by
  rw [trim,trim,dropWhile_cons_of_pos hc]

theorem trim_trimEnd (s : Text) : trim (trimEnd s) = trim s := by
  obtain ⟨w,hw,hs⟩ := exists_trimEnd s
  conv_rhs => rw [hs,trim_append hw]

theorem trimEnd_above (text : Text) : trimEnd (above text) = trimEnd text := by
  have hne : whitespace '\n' := by decide
  have hn : ∀ c ∈ ['\n','\n'], whitespace c := by simpa using hne
  rw [above]
  split
  · rw [trimEnd_append hn,trimEnd_trimEnd]
  · next hni => exact (not_not.1 hni).symm

theorem trim_above (text : Text) : trim (above text) = trim text := by
  rw [← trim_trimEnd,trimEnd_above,trim_trimEnd]

theorem above_above (text : Text) : above (above text) = above text := by
  rw [above,trimEnd_above]
  rfl

theorem below_newline (text : Text) : below ('\n' ::text) = below text := by
  rw [below,below,dropWhile_cons_of_pos (by decide)]

theorem below_eq (hne : text ≠ []) (hf : text.head? ≠ some '\n') (hl : text.getLast? = some '\n') :
    below text = '\n' ::text := by
  have hd : text.dropWhile (· = '\n') = text := by
    obtain ⟨c,rest,rfl⟩ := exists_cons_of_ne_nil hne
    exact dropWhile_cons_of_neg fun hc => hf (congrArg some (of_decide_eq_true hc))
  rw [below,hd]
  simp [hne,hl]

theorem head?_dropWhile_newline (text : Text) : (text.dropWhile (· = '\n')).head? ≠ some '\n' := by
  intro h
  have hn := List.head?_dropWhile_not (fun c : Char => decide (c = '\n')) text
  rw [h] at hn
  exact absurd hn (by decide)

theorem below_below (text : Text) : below ('\n' ::below text) = below text := by
  rw [below_newline]
  by_cases hn : text.dropWhile (· = '\n') = []
  · have hb : below text = [] := by simp [below,hn]
    rw [hb]
    rfl
  · have hf := head?_dropWhile_newline text
    generalize hr : text.dropWhile (· = '\n') = rest at hn hf
    have hb : below text = '\n' ::(rest++(if rest.getLast? = some '\n' then [] else ['\n'])) := by
      rw [below,hr]
      simp [hn]
    rw [hb,below_newline]
    refine below_eq (by simp [hn]) ?_ ?_
    · rwa [List.head?_append_of_ne_nil _ hn]
    · split
      · next hl => rw [append_nil,hl]
      · exact List.getLast?_concat

end Blanks

section Upsert
variable {m : Markers} {block body : Text}

/-- A block framed by its markers, which do not occur inside of it. -/
structure Managed (m : Markers) (block body : Text) : Prop where
  framed : trim block = m.start++body++m.stop
  closes : split m.stop (body++m.stop) = some (body,[])
  flat : Free m.start body

def upsert (m : Markers) (block existing : Text) : Text :=
  upsertManagedBlock existing m.start m.stop block

def assemble (m : Markers) (body before after : Text) : Text :=
  above before++(m.start++body++m.stop++ '\n' ::below after)

theorem upsert_of_region (hb : Managed m block body) (hs : split m.start x = some (before,rest))
    (hst : split m.stop rest = some (inside,after)) :
    upsert m block x = assemble m body before after := by
  rw [upsert,upsertManagedBlock,hs]
  simp [split_append_apart m.apart,hst,hb.framed,assemble]

theorem upsert_of_free (hb : Managed m block body) (hs : Free m.start x) :
    upsert m block x = assemble m body x [] := by
  rw [upsert,upsertManagedBlock,show split m.start x = none from hs]
  simp [hb.framed,assemble,below]

theorem upsert_of_open (hb : Managed m block body) (hs : split m.start x = some (before,rest))
    (hst : Free m.stop rest) : upsert m block x = assemble m body x [] := by
  rw [upsert,upsertManagedBlock,hs]
  simp [split_append_apart m.apart,show split m.stop rest = none from hst,hb.framed,assemble,below]

theorem split_above (hs : sep ≠ []) (hl : '\n' ∉ sep) (hf : Free sep (trimEnd text)) (s : Text) :
    split sep (above text++s) = (split sep s).map fun r => (above text++r.1,r.2) := by
  rw [above]
  split
  · have hn := split_append_stop hs (show Free sep [] from rfl) hl s
    rw [nil_append] at hn
    rw [append_assoc]
    change split sep (trimEnd text++ '\n' ::('\n' ::s)) = _
    rw [split_append_stop hs hf hl,hn,Option.map_map]
    congr 1
    funext r
    simp
  · simp

theorem free_trimEnd (h : Free sep text) : Free sep (trimEnd text) := by
  obtain ⟨w,-,ht⟩ := exists_trimEnd text
  rw [ht] at h
  exact free_of_append h

theorem split_assemble (hb : Managed m block body) (hf : Free m.start before) (after : Text) :
    split m.start (assemble m body before after) = some (above before,body++m.stop++ '\n' ::below after) ∧
      split m.stop (body++m.stop++ '\n' ::below after) = some (body,'\n' ::below after) := by
  constructor
  · rw [assemble,split_above m.start_ne m.start_line (free_trimEnd hf)]
    simp only [append_assoc]
    rw [split_self_append m.start_ne]
    simp
  · exact split_append hb.closes _

theorem upsert_assemble (hb : Managed m block body) (hf : Free m.start before) (after : Text) :
    upsert m block (assemble m body before after) = assemble m body before after := by
  obtain ⟨hs,hst⟩ := split_assemble hb hf after
  rw [upsert_of_region hb hs hst,assemble,assemble,above_above,below_below]

end Upsert

section UserText
variable (m : Markers)

theorem length_rest (h : split m.start x = some (before,rest)) : rest.length < x.length := by
  have hl := congrArg List.length (eq_append_of_split h)
  have hp := List.length_pos_iff.2 m.start_ne
  simp only [length_append] at hl
  omega

theorem length_after (h : split m.stop rest = some (inside,after)) :
    after.length ≤ rest.length := by
  have hl := congrArg List.length (eq_append_of_split h)
  simp only [length_append] at hl
  omega

/-- The pieces of a text outside of its regions. A region is a start marker and the next end marker with
no other start marker between; a start marker that has none is text like any other. -/
def outside (x : Text) : List Text :=
  match _ : split m.start x with
  | none => [x]
  | some (before,rest) =>
    match _ : split m.stop rest with
    | none => [x]
    | some (inside,after) =>
      if Free m.start inside then before::outside after
      else (outside rest).modifyHead (before++m.start++·)
termination_by x.length
decreasing_by
  · exact (length_after m ‹_›).trans_lt (length_rest m ‹_›)
  · exact length_rest m ‹_›

variable {m}

theorem outside_of_free (h : Free m.start x) : outside m x = [x] := by
  rw [outside]
  split
  · rfl
  · next hs => rw [Free,hs] at h; cases h

theorem outside_of_open (hst : split m.start x = some (before,rest)) (hs : Free m.stop rest) :
    outside m x = [x] := by
  rw [outside]
  split
  · rfl
  · next before' rest' hs' =>
    rw [hst] at hs'
    cases hs'
    split
    · rfl
    · next hst' => rw [Free,hst'] at hs; cases hs

theorem outside_of_region (hs : split m.start x = some (before,rest))
    (hst : split m.stop rest = some (inside,after)) :
    outside m x = if Free m.start inside then before::outside m after
      else (outside m rest).modifyHead (before++m.start++·) := by
  rw [outside]
  split
  · next hs' => rw [hs] at hs'; cases hs'
  · next before' rest' hs' =>
    rw [hs] at hs'
    cases hs'
    split
    · next hst' => rw [hst] at hst'; cases hst'
    · next inside' after' hst' =>
      rw [hst] at hst'
      cases hst'
      rfl

theorem free_append_newline (hs : sep ≠ []) (hl : '\n' ∉ sep) (h : Free sep x) :
    Free sep (x++['\n']) := by
  rw [Free,split_append_stop hs h hl]
  rfl

theorem split_newline (hs : sep ≠ []) (hl : '\n' ∉ sep) (x : Text) :
    split sep ('\n' ::x) = (split sep x).map fun r => ('\n' ::r.1,r.2) :=
  split_append_stop hs (show Free sep [] from rfl) hl x

theorem outside_newline (x : Text) : outside m ('\n' ::x) = (outside m x).modifyHead ('\n' ::·) := by
  have hn := split_newline m.start_ne m.start_line x
  cases hs : split m.start x with
  | none =>
    rw [hs] at hn
    rw [outside_of_free hs,outside_of_free hn]
    rfl
  | some found =>
    obtain ⟨before,rest⟩ := found
    rw [hs] at hn
    cases hst : split m.stop rest with
    | none =>
      rw [outside_of_open hs hst,outside_of_open hn hst]
      rfl
    | some ended =>
      obtain ⟨inside,after⟩ := ended
      rw [outside_of_region hs hst,outside_of_region hn hst]
      split
      · rfl
      · rw [modifyHead_modifyHead]
        rfl

def Padded (p q : Text) : Prop := ∃ w, (∀ c ∈ w, whitespace c = true) ∧ q = p++w

theorem Padded.refl (p : Text) : Padded p p := ⟨[],by simp,(append_nil p).symm⟩

theorem Padded.append_left (a : Text) {p q : Text} (h : Padded p q) : Padded (a++p) (a++q) := by
  obtain ⟨w,hw,rfl⟩ := h
  exact ⟨w,hw,(append_assoc a p w).symm⟩

variable {ps qs : List Text}

theorem forall₂_modifyHead {R : Text → Text → Prop} {f : Text → Text}
    (hf : ∀ p q, R p q → R (f p) (f q)) (h : List.Forall₂ R ps qs) :
    List.Forall₂ R (ps.modifyHead f) (qs.modifyHead f) := by
  cases h with
  | nil => exact .nil
  | cons hh ht => exact .cons (hf _ _ hh) ht

theorem map_trim_of_padded (h : List.Forall₂ Padded ps qs) : qs.map trim = ps.map trim := by
  induction h with
  | nil => rfl
  | cons hh _ ih =>
    obtain ⟨w,hw,rfl⟩ := hh
    rw [map_cons,map_cons,trim_append hw,ih]

theorem outside_append_newline (x : Text) :
    List.Forall₂ Padded (outside m x) (outside m (x++['\n'])) := by
  have hp : Padded x (x++['\n']) := ⟨['\n'],by simpa using (by decide : whitespace '\n'),rfl⟩
  cases hs : split m.start x with
  | none =>
    rw [outside_of_free hs,outside_of_free (free_append_newline m.start_ne m.start_line hs)]
    exact .cons hp .nil
  | some found =>
    obtain ⟨before,rest⟩ := found
    have hs' := split_append hs ['\n']
    cases hst : split m.stop rest with
    | none =>
      rw [outside_of_open hs hst,
        outside_of_open hs' (free_append_newline m.stop_ne m.stop_line hst)]
      exact .cons hp .nil
    | some ended =>
      obtain ⟨inside,after⟩ := ended
      rw [outside_of_region hs hst,outside_of_region hs' (split_append hst ['\n'])]
      have hr := length_rest m hs
      have ha := length_after m hst
      split
      · exact .cons (Padded.refl before) (outside_append_newline after)
      · exact forall₂_modifyHead (fun p q hpq => hpq.append_left (before++m.start)) (outside_append_newline rest)
termination_by x.length

/-- The user's text: the pieces without the blanks around them. -/
def userText (m : Markers) (x : Text) : List Text := ((outside m x).map trim).filter (· ≠ [])

theorem filter_map_trim_cons (p : Text) (ps : List Text) : ((p::ps).map trim).filter (· ≠ []) =
    [trim p].filter (· ≠ [])++(ps.map trim).filter (· ≠ []) := filter_append [trim p] _

theorem userText_newline (x : Text) : userText m ('\n' ::x) = userText m x := by
  have hb : whitespace '\n' := by decide
  rw [userText,userText,outside_newline]
  cases outside m x with
  | nil => rfl
  | cons p ps => rw [modifyHead_cons,map_cons,trim_cons hb,map_cons]

theorem userText_append_newline (x : Text) : userText m (x++['\n']) = userText m x := by
  rw [userText,userText,map_trim_of_padded (outside_append_newline x)]

theorem userText_below (x : Text) : userText m ('\n' ::below x) = userText m x := by
  have hd : userText m (x.dropWhile (· = '\n')) = userText m x := by
    induction x with
    | nil => rfl
    | cons c x ih =>
      by_cases hc : c = '\n'
      · rw [dropWhile_cons_of_pos (by simpa using hc),ih,hc,userText_newline]
      · rw [dropWhile_cons_of_neg (by simpa using hc)]
  rw [userText_newline,← hd,below]
  split
  · rw [cons_append,userText_newline]
    split
    · rw [append_nil]
    · exact userText_append_newline _
  · next hn => rw [not_not.1 hn]

theorem userText_assemble {block body : Text} (hb : Managed m block body) (hf : Free m.start before)
    (after : Text) :
    userText m (assemble m body before after) = [trim before].filter (· ≠ [])++userText m after := by
  obtain ⟨hs,hst⟩ := split_assemble hb hf after
  rw [userText,outside_of_region hs hst,if_pos hb.flat,filter_map_trim_cons,trim_above]
  exact congrArg _ (userText_below after)

/-- The pieces stand in the text one after the other. -/
def InOrder : List Text → Text → Prop
  | [], _ => True
  | p::ps, x => ∃ a b, x = a++p++b ∧ InOrder ps b

theorem InOrder.append_left (h : InOrder ps x) (a : Text) : InOrder ps (a++x) := by
  cases ps with
  | nil => trivial
  | cons p ps =>
    obtain ⟨b,c,rfl,hr⟩ := h
    exact ⟨a++b,c,by simp,hr⟩

theorem InOrder.filter (h : InOrder ps x) (keep : Text → Bool) : InOrder (ps.filter keep) x := by
  induction ps generalizing x with
  | nil => trivial
  | cons p ps ih =>
    obtain ⟨a,b,rfl,hr⟩ := h
    rw [filter_cons]
    split
    · exact ⟨a,b,rfl,ih hr⟩
    · exact (ih hr).append_left (a++p)

theorem exists_trim (s : Text) : ∃ a b, s = a++trim s++b := by
  obtain ⟨w,-,hw⟩ := exists_trimEnd (s.dropWhile whitespace)
  refine ⟨s.takeWhile whitespace,w,?_⟩
  conv_lhs => rw [← takeWhile_append_dropWhile (p := whitespace) (l := s),hw]
  rw [append_assoc]
  rfl

theorem InOrder.map_trim (h : InOrder ps x) : InOrder (ps.map trim) x := by
  induction ps generalizing x with
  | nil => trivial
  | cons p ps ih =>
    obtain ⟨a,b,rfl,hr⟩ := h
    obtain ⟨c,d,hp⟩ := exists_trim p
    refine ⟨a++c,d++b,?_,(ih hr).append_left d⟩
    conv_lhs => rw [hp]
    simp

theorem outside_spec (x : Text) : ∃ p ps b, outside m x = p::ps ∧ x = p++b ∧ InOrder ps b := by
  cases hs : split m.start x with
  | none => exact ⟨x,[],[],outside_of_free hs,(append_nil x).symm,trivial⟩
  | some found =>
    obtain ⟨before,rest⟩ := found
    cases hst : split m.stop rest with
    | none => exact ⟨x,[],[],outside_of_open hs hst,(append_nil x).symm,trivial⟩
    | some ended =>
      obtain ⟨inside,after⟩ := ended
      have hx := eq_append_of_split hs
      have hr := length_rest m hs
      have ha := length_after m hst
      rw [outside_of_region hs hst]
      split
      · obtain ⟨p,ps,b,heq,rfl,hps⟩ := outside_spec after
        refine ⟨before,_,m.start++rest,rfl,by rw [hx,append_assoc],?_⟩
        rw [heq,eq_append_of_split hst]
        exact ⟨m.start++(inside++m.stop),b,by simp,hps⟩
      · obtain ⟨p,ps,b,heq,rfl,hps⟩ := outside_spec rest
        exact ⟨before++m.start++p,ps,b,by rw [heq]; rfl,by rw [hx]; simp,hps⟩
termination_by x.length

theorem inOrder_userText (x : Text) : InOrder (userText m x) x := by
  obtain ⟨p,ps,b,heq,hx,hps⟩ := outside_spec (m := m) x
  refine InOrder.filter (InOrder.map_trim ?_) _
  rw [heq]
  exact ⟨[],b,hx,hps⟩

end UserText

section Main
variable {m : Markers} {block body : Text}

/-- The first start marker, if there is one, opens a region. -/
def WellPaired (m : Markers) (x : Text) : Prop :=
  ∀ before rest, split m.start x = some (before,rest) →
    ∃ inside after, split m.stop rest = some (inside,after) ∧ Free m.start inside

/-- Any number of upserts leave the user's text outside of the block, in order. -/
def KeepsUserText (m : Markers) (block x : Text) : Prop :=
  ∀ n, userText m ((upsert m block)^[n] x) = userText m x ∧ InOrder (userText m x) ((upsert m block)^[n] x)

theorem upsert_idem (hb : Managed m block body) (h : WellPaired m x) :
    upsert m block (upsert m block x) = upsert m block x := by
  cases hs : split m.start x with
  | none => rw [upsert_of_free hb hs,upsert_assemble hb hs]
  | some found =>
    obtain ⟨before,rest⟩ := found
    obtain ⟨inside,after,hst,-⟩ := h before rest hs
    rw [upsert_of_region hb hs hst,upsert_assemble hb (free_of_split m.start_ne hs)]

theorem userText_upsert (hb : Managed m block body) (h : WellPaired m x) :
    userText m (upsert m block x) = userText m x := by
  cases hs : split m.start x with
  | none =>
    rw [upsert_of_free hb hs,userText_assemble hb hs,userText,userText,
      outside_of_free hs,outside_of_free (show Free m.start [] from rfl)]
    simp [trim]
  | some found =>
    obtain ⟨before,rest⟩ := found
    obtain ⟨inside,after,hst,hf⟩ := h before rest hs
    rw [upsert_of_region hb hs hst,userText_assemble hb (free_of_split m.start_ne hs),
      userText,userText,outside_of_region hs hst,if_pos hf,filter_map_trim_cons]

theorem keepsUserText (hb : Managed m block body) (h : WellPaired m x) :
    KeepsUserText m block x := by
  have hi : ∀ n, (upsert m block)^[n+1] x = upsert m block x := by
    intro n
    induction n with
    | zero => rfl
    | succ n ih => rw [Function.iterate_succ_apply',ih,upsert_idem hb h]
  have hk : ∀ n, userText m ((upsert m block)^[n] x) = userText m x := by
    intro n
    cases n with
    | zero => rfl
    | succ n => rw [hi,userText_upsert hb h]
  intro n
  refine ⟨hk n,?_⟩
  rw [← hk n]
  exact inOrder_userText _

theorem Markers.start_concat (m : Markers) : ∃ front c, m.start = front++[c] ∧ whitespace c = false := by
  have hl := m.start_last
  rcases eq_nil_or_concat' m.start with hn | ⟨front,c,heq⟩
  · exact absurd hn m.start_ne
  · refine ⟨front,c,heq,?_⟩
    rw [heq,List.getLast?_concat] at hl
    simpa using hl

theorem Markers.start_cons (m : Markers) : ∃ c rest, m.start = c::rest ∧ whitespace c = false := by
  have hf := m.start_first
  obtain ⟨c,rest,heq⟩ := exists_cons_of_ne_nil m.start_ne
  rw [heq] at hf
  exact ⟨c,rest,heq,by simpa using hf⟩

theorem trimEnd_concat {c : Char} (hc : whitespace c = false) (s : Text) : trimEnd (s++[c]) = s++[c] :=
  rdropWhile_concat_neg _ _ _ (by rw [hc]; decide)

theorem length_trimEnd_le (s : Text) : (trimEnd s).length ≤ s.length :=
  ( rdropWhile_prefix whitespace s).length_le

theorem trimEnd_append_start (a b : Text) : trimEnd (a++m.start++b) = a++m.start++trimEnd b := by
  obtain ⟨w,hw,hb⟩ := exists_trimEnd b
  conv_lhs => rw [hb,← append_assoc,trimEnd_append hw]
  by_cases hn : trimEnd b = []
  · obtain ⟨front,c,hs,hc⟩ := m.start_concat
    rw [hn,append_nil,hs,← append_assoc,trimEnd_concat hc]
  · have hl : whitespace ((trimEnd b).getLast hn) = false :=
      Bool.eq_false_iff.2 (rdropWhile_last_not whitespace b hn)
    rw [← dropLast_append_getLast hn,← append_assoc,trimEnd_concat hl]

theorem trim_append_start (a b : Text) :
    trim (a++m.start++b) = a.dropWhile whitespace++m.start++trimEnd b := by
  have hd : (a++m.start++b).dropWhile whitespace = a.dropWhile whitespace++m.start++b := by
    rw [append_assoc,dropWhile_append]
    split
    · next he =>
      obtain ⟨c,rest,hs,hc⟩ := m.start_cons
      rw [List.isEmpty_iff.1 he,hs,cons_append,
        dropWhile_cons_of_neg (by rw [hc]; decide)]
      rfl
    · rw [append_assoc]
  rw [trim,hd]
  exact trimEnd_append_start _ _

theorem outside_of_nested {rest inside after : Text} (hst : split m.stop rest = some (inside,after))
    (hn : ¬Free m.start inside) : ∃ p, outside m rest = p::outside m after := by
  obtain ⟨⟨before,inside'⟩,hs⟩ := Option.ne_none_iff_exists'.1 hn
  have hr := eq_append_of_split hst
  have hi := eq_append_of_split hs
  have hs' : split m.start rest = some (before,inside'++(m.stop++after)) := by
    rw [hr,append_assoc]
    exact split_append hs _
  have hst' : split m.stop (inside'++(m.stop++after)) = some (inside',after) := by
    refine @split_of_append _ _ _ _ (before++m.start) _ _ ?_
    rw [← hi,← hst,hr,hi]
    simp
  have hl := length_rest m hs'
  rw [outside_of_region hs' hst']
  split
  · exact ⟨before,rfl⟩
  · next hn' =>
    obtain ⟨p,hp⟩ := outside_of_nested hst' hn'
    exact ⟨before++m.start++p,by rw [hp]; rfl⟩
termination_by rest.length
decreasing_by exact hl

/-- A start marker that nothing ends swallows what follows it once the block has been put behind it. -/
theorem upsert_upsert_of_open (hb : Managed m block body)
    (hs : split m.start x = some (before,rest)) (ho : Free m.stop rest) :
    upsert m block (upsert m block x) = assemble m body before ['\n'] := by
  have ha : above x = before++m.start++(trimEnd rest++['\n','\n']) := by
    have ht : trimEnd x = before++m.start++trimEnd rest := by
      rw [eq_append_of_split hs,trimEnd_append_start]
    rw [above,ht,if_pos (by simp [m.start_ne])]
    simp
  have hs' : split m.start (assemble m body x []) =
      some (before,trimEnd rest++ '\n' ::('\n' ::(m.start++(body++m.stop++['\n'])))) := by
    have hte : assemble m body x [] = before++m.start++
        (trimEnd rest++ '\n' ::('\n' ::(m.start++(body++m.stop++['\n'])))) := by
      rw [assemble,ha]
      simp [below]
    rw [hte]
    exact split_of_split m.start_ne hs _
  have hst' : split m.stop (trimEnd rest++ '\n' ::('\n' ::(m.start++(body++m.stop++['\n'])))) =
      some (trimEnd rest++ '\n' :: '\n' ::(m.start++body),['\n']) := by
    rw [split_append_stop m.stop_ne (free_trimEnd ho) m.stop_line,
      split_newline m.stop_ne m.stop_line,split_append_apart m.apart,split_append hb.closes]
    rfl
  rw [upsert_of_open hb hs ho,upsert_of_region hb hs' hst']

theorem closed_of_idem (hb : Managed m block body) (hs : split m.start x = some (before,rest))
    (hi : upsert m block (upsert m block x) = upsert m block x) : ¬Free m.stop rest := by
  intro ho
  rw [upsert_upsert_of_open hb hs ho,upsert_of_open hb hs ho,assemble,assemble] at hi
  have ha : above before = above x := append_cancel_right hi
  have ht := congrArg trimEnd ha
  rw [trimEnd_above,trimEnd_above,eq_append_of_split hs,trimEnd_append_start] at ht
  have hl := congrArg List.length ht
  have hle := length_trimEnd_le before
  have hp := List.length_pos_iff.2 m.start_ne
  simp only [length_append] at hl
  omega

theorem free_of_userText (hb : Managed m block body) (hs : split m.start x = some (before,rest))
    (hst : split m.stop rest = some (inside,after))
    (hk : userText m (upsert m block x) = userText m x) : Free m.start inside := by
  by_contra hn
  obtain ⟨p,hp⟩ := outside_of_nested hst hn
  rw [upsert_of_region hb hs hst,userText_assemble hb (free_of_split m.start_ne hs),
    userText,userText,outside_of_region hs hst,if_neg hn,hp,modifyHead_cons,
    filter_map_trim_cons,trim_append_start] at hk
  have hf := append_cancel_right hk
  have hne : before.dropWhile whitespace++m.start++trimEnd p ≠ [] := by simp [m.start_ne]
  have hm : before.dropWhile whitespace++m.start++trimEnd p ∈ [trim before].filter (· ≠ []) := by
    rw [hf]
    exact mem_filter.2 ⟨mem_singleton_self _,decide_eq_true hne⟩
  have hl := congrArg List.length (mem_singleton.1 (mem_filter.1 hm).1)
  have hle := length_trimEnd_le (before.dropWhile whitespace)
  have hpo := List.length_pos_iff.2 m.start_ne
  have ht : trim before = trimEnd (before.dropWhile whitespace) := rfl
  rw [ht] at hl
  simp only [length_append] at hl
  omega

/-- An upsert is idempotent and keeps the user's text exactly when the first start marker, if there is one,
opens a region. -/
theorem upsert_sound_iff (hblock : Managed m block body) (x : Text) :
    (upsert m block (upsert m block x) = upsert m block x ∧ KeepsUserText m block x) ↔ WellPaired m x := by
  constructor
  · rintro ⟨hi,hk⟩ before rest hs
    have hc := closed_of_idem hblock hs hi
    obtain ⟨⟨inside,after⟩,hst⟩ := Option.ne_none_iff_exists'.1 hc
    exact ⟨inside,after,hst,free_of_userText hblock hs hst (hk 1).1⟩
  · intro h
    exact ⟨upsert_idem hblock h,keepsUserText hblock h⟩

def portBody : Text := "\nport = 5432\n".toList
def portBlock : Text := configMarkers.start++portBody++configMarkers.stop++['\n']

theorem managed_portBlock : Managed configMarkers portBlock portBody :=
  ⟨by decide +kernel,by decide +kernel,by decide +kernel⟩

def replaced : Text :=
  ("ssl = on\n\n# BEGIN pgbattery managed config\nport = 1\n# END pgbattery managed config\n\n" ++
    "work_mem = 4MB\n").toList

def hbaBody : Text := "\nlocal all postgres peer\n".toList
def hbaBlock : Text := hbaMarkers.start++hbaBody++hbaMarkers.stop++['\n']

theorem managed_hbaBlock : Managed hbaMarkers hbaBlock hbaBody :=
  ⟨by decide +kernel,by decide +kernel,by decide +kernel⟩

def unmanaged : Text := "host all all ::1/128 scram-sha-256\n".toList

theorem replaced_sound : (Managed configMarkers portBlock portBody ∧
    upsert configMarkers portBlock (upsert configMarkers portBlock replaced) =
      upsert configMarkers portBlock replaced ∧ KeepsUserText configMarkers portBlock replaced) ∧
    Managed hbaMarkers hbaBlock hbaBody ∧
    upsert hbaMarkers hbaBlock (upsert hbaMarkers hbaBlock unmanaged) =
      upsert hbaMarkers hbaBlock unmanaged ∧ KeepsUserText hbaMarkers hbaBlock unmanaged := by
  refine ⟨⟨managed_portBlock,(upsert_sound_iff managed_portBlock replaced).2 fun before rest hs => ?_⟩,
    managed_hbaBlock,(upsert_sound_iff managed_hbaBlock unmanaged).2 fun before rest hs => ?_⟩
  · have hf : (split configMarkers.start replaced).map Prod.snd =
        some "\nport = 1\n# END pgbattery managed config\n\nwork_mem = 4MB\n".toList := by decide +kernel
    rw [hs] at hf
    cases hf
    exact ⟨"\nport = 1\n".toList,"\n\nwork_mem = 4MB\n".toList,by decide +kernel,by decide +kernel⟩
  · have hf : split hbaMarkers.start unmanaged = none := by decide +kernel
    rw [hs] at hf
    cases hf

/-- The end marker has been taken out by hand. -/
def opened : Text := "ssl = on\n# BEGIN pgbattery managed config\nmax_connections = 500\n".toList

/-- The first upsert puts the block behind the user's setting, the second takes both for the block. -/
theorem opened_loses_text :
    upsert configMarkers portBlock (upsert configMarkers portBlock opened) ≠
        upsert configMarkers portBlock opened ∧
      ¬Free "max_connections = 500".toList opened ∧
      Free "max_connections = 500".toList (upsert configMarkers portBlock (upsert configMarkers portBlock opened)) := by
  refine ⟨by decide +kernel,by decide +kernel,by decide +kernel⟩

end Main
end ManagedBlock
end PgBattery
