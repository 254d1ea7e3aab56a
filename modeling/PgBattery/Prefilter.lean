import PgBattery.Reading

/-! What the gateway's scans find, in the terms of the lexer: its search for a semicolon and its search
for the first keyword are exact, up to its reading of a carriage return and a vertical tab. -/
namespace PgBattery
namespace Prefilter
open Postcard Analysis Lexical Reading List

section Sound
variable {l rest : Bytes}

/-- What the skipping of a blank has gone through, up to the bytes it stops at. -/
def Skipped : Blank → Bytes → Bytes → Prop
  | .space, l, rest => ∃ gap, Gap gap ∧ l = gap++rest
  | .line, l, rest => ∃ body gap, (∀ c ∈ body, c ≠ 10 ∧ c ≠ 13) ∧ Gap gap ∧ l = body++10::(gap++rest)
  | .block d, l, rest => ∃ body gap, Closes d body ∧ Gap gap ∧ l = body++(gap++rest)

theorem isSpace_of_isAsciiWhitespace : ∀ b, isAsciiWhitespace b → isSpace b := by
  grind [isSpace,isAsciiWhitespace]

theorem skipped_of_skipBlank {m : Blank} (h : skipBlank m l = some rest) (hne : rest ≠ [])
    (hcr : ∀ b ∈ l, b ≠ 13) : Skipped m l rest := by
  fun_induction skipBlank m l with
  | case1 => exact absurd (Option.some.inj h).symm hne
  | case2 b hb => exact absurd (Option.some.inj h).symm hne
  | case3 b hb =>
    cases h
    exact ⟨[],.nil,rfl⟩
  | case4 a b l hb ih =>
    obtain ⟨gap,hg,hl⟩ := ih h fun c hc => hcr c (mem_cons_of_mem _ hc)
    exact ⟨a::gap,.space (isSpace_of_isAsciiWhitespace a hb) hg,by rw [hl]; rfl⟩
  | case5 a b l _ hli ih =>
    obtain ⟨rfl,rfl⟩ := hli
    obtain ⟨body,gap,hbo,hg,rfl⟩ := ih h fun c hc =>
      hcr c (mem_cons_of_mem _ (mem_cons_of_mem _ hc))
    exact ⟨45::45::(body++10::gap),.line hbo (.inl rfl) hg,by simp⟩
  | case6 a b l _ _ hbl ih =>
    obtain ⟨rfl,rfl⟩ := hbl
    obtain ⟨body,gap,hbo,hg,rfl⟩ := ih h fun c hc =>
      hcr c (mem_cons_of_mem _ (mem_cons_of_mem _ hc))
    exact ⟨47::42::(body++gap),.block hbo hg,by simp⟩
  | case7 a b l =>
    cases h
    exact ⟨[],.nil,rfl⟩
  | case8 => exact absurd (Option.some.inj h).symm hne
  | case9 l ih =>
    obtain ⟨gap,hg,rfl⟩ := ih h fun c hc => hcr c (mem_cons_of_mem _ hc)
    exact ⟨[],gap,by simp,hg,rfl⟩
  | case10 b l hb ih =>
    obtain ⟨body,gap,hbo,hg,rfl⟩ := ih h fun c hc => hcr c (mem_cons_of_mem _ hc)
    exact ⟨b::body,gap,forall_mem_cons.2 ⟨⟨hb,hcr b mem_cons_self⟩,hbo⟩,hg,rfl⟩
  | case11 l =>
    cases h
    exact ⟨[],[],.done,.nil,rfl⟩
  | case12 => cases h
  | case13 => cases h
  | case14 d a b l ho ih =>
    obtain ⟨rfl,rfl⟩ := ho
    obtain ⟨body,gap,hbo,hg,rfl⟩ := ih h fun c hc =>
      hcr c (mem_cons_of_mem _ (mem_cons_of_mem _ hc))
    exact ⟨47::42::body,gap,.nest hbo,hg,rfl⟩
  | case15 a b l _ hcl ih =>
    obtain ⟨rfl,rfl⟩ := hcl
    obtain ⟨gap,hg,rfl⟩ := ih h fun c hc =>
      hcr c (mem_cons_of_mem _ (mem_cons_of_mem _ hc))
    exact ⟨[42,47],gap,.close .done,hg,rfl⟩
  | case16 d a b l _ hcl hd ih =>
    obtain ⟨rfl,rfl⟩ := hcl
    obtain ⟨body,gap,hbo,hg,rfl⟩ := ih h fun c hc =>
      hcr c (mem_cons_of_mem _ (mem_cons_of_mem _ hc))
    exact ⟨42::47::body,gap,.close hbo,hg,rfl⟩
  | case17 d a b l ho hcl ih =>
    obtain ⟨body,gap,hbo,hg,hl⟩ := ih h fun c hc => hcr c (mem_cons_of_mem _ hc)
    cases body with
    | nil => cases hbo
    | cons c body =>
      obtain ⟨rfl,hl⟩ := List.cons.inj hl
      exact ⟨a::b::body,gap,.byte ho hcl hbo,hg,by rw [hl]; rfl⟩

/-- Bytes inside a literal, without a backslash. -/
inductive Inside : Bytes → Prop
  | nil : Inside []
  | quote {rest : Bytes} : Inside rest → Inside (39::39::rest)
  | byte {b : U8} {rest : Bytes} : b ≠ 39 → b ≠ 92 → Inside rest → Inside (b::rest)

theorem inside_of_skipLiteral (h : skipLiteral l = none) :
    ∃ lit rest, Inside lit ∧ l = lit++92::rest := by
  fun_induction skipLiteral l with
  | case1 => cases h
  | case2 => exact ⟨[],[],.nil,rfl⟩
  | case3 => cases h
  | case4 b l => exact ⟨[],b::l,.nil,rfl⟩
  | case5 l _ ih =>
    obtain ⟨lit,rest,hli,rfl⟩ := ih h
    exact ⟨39::39::lit,rest,.quote hli,rfl⟩
  | case6 => cases h
  | case7 a b l h92 h39 ih =>
    obtain ⟨lit,rest,hli,hl⟩ := ih h
    exact ⟨a::lit,rest,.byte h39 h92 hli,by rw [hl]; rfl⟩

theorem literal_of_skipLiteral (h : skipLiteral l = some rest) (hne : rest ≠ []) :
    ∃ lit, Literal lit ∧ rest.head? ≠ some 39 ∧ l = lit++rest := by
  fun_induction skipLiteral l with
  | case1 => exact absurd (Option.some.inj h).symm hne
  | case2 => cases h
  | case3 => exact absurd (Option.some.inj h).symm hne
  | case4 => cases h
  | case5 l _ ih =>
    obtain ⟨lit,hli,hh,rfl⟩ := ih h
    exact ⟨39::39::lit,.quote hli,hh,rfl⟩
  | case6 b l hb =>
    cases h
    exact ⟨[39],.close,fun hh => hb (Option.some.inj hh),rfl⟩
  | case7 a b l h92 h39 ih =>
    obtain ⟨lit,hli,hh,hl⟩ := ih h
    exact ⟨a::lit,.byte h39 hli,hh,by rw [hl]; rfl⟩

theorem quoted_of_skipQuotedIdentifier (h : skipQuotedIdentifier l = rest) (hne : rest ≠ []) :
    ∃ name, Quoted name ∧ rest.head? ≠ some 34 ∧ l = name++rest := by
  fun_induction skipQuotedIdentifier l with
  | case1 => exact absurd h.symm hne
  | case2 => exact absurd h.symm hne
  | case3 l ih =>
    obtain ⟨name,hn,hh,rfl⟩ := ih h
    exact ⟨34::34::name,.quote hn,hh,rfl⟩
  | case4 b l hb =>
    cases h
    exact ⟨[34],.close,fun hh => hb (Option.some.inj hh),rfl⟩
  | case5 a b l h34 ih =>
    obtain ⟨name,hn,hh,hl⟩ := ih h
    exact ⟨a::name,.byte h34 hn,hh,by rw [hl]; rfl⟩

theorem closes_of_skipBlockComment {d : ℕ} (h : skipBlockComment d l = rest) (hne : rest ≠ []) :
    ∃ body, Closes d body ∧ l = body++rest := by
  fun_induction skipBlockComment d l with
  | case1 l => exact ⟨[],.done,h⟩
  | case2 => exact absurd h.symm hne
  | case3 => exact absurd h.symm hne
  | case4 d a b l ho ih =>
    obtain ⟨rfl,rfl⟩ := ho
    obtain ⟨body,hb,rfl⟩ := ih h
    exact ⟨47::42::body,.nest hb,rfl⟩
  | case5 d a b l _ hc ih =>
    obtain ⟨rfl,rfl⟩ := hc
    obtain ⟨body,hb,rfl⟩ := ih h
    exact ⟨42::47::body,.close hb,rfl⟩
  | case6 d a b l ho hc ih =>
    obtain ⟨body,hb,hl⟩ := ih h
    cases body with
    | nil => cases hb
    | cons c body =>
      obtain ⟨rfl,hl⟩ := List.cons.inj hl
      exact ⟨a::b::body,.byte ho hc hb,by rw [hl]; rfl⟩

theorem body_of_skipDollarQuoted {tag : Bytes} (h : skipDollarQuoted tag l = some rest) :
    ∃ body, (∀ k < body.length, ¬tag <+: (body++tag).drop k) ∧ l = body++(tag++rest) := by
  induction l with
  | nil =>
    obtain ⟨ht,rfl⟩ := by simpa [skipDollarQuoted] using h
    exact ⟨[],by simp,by simp [ht]⟩
  | cons b l ih =>
    rw [skipDollarQuoted] at h
    split_ifs at h with hp
    · obtain ⟨after,ha⟩ := isPrefixOf_iff_prefix.1 hp
      rw [← ha,drop_left,Option.some.injEq] at h
      exact ⟨[],by simp,by rw [← h,ha]; rfl⟩
    · obtain ⟨body,hf,rfl⟩ := ih h
      refine ⟨b::body,fun k hk => ?_,rfl⟩
      cases k with
      | zero =>
        intro ht
        refine hp (List.isPrefixOf_iff_prefix.2 (ht.trans ?_))
        exact ⟨rest,by simp⟩
      | succ k => exact hf k (Nat.lt_of_succ_lt_succ hk)

end Sound

/-- The bytes, after the byte `p`, come to a semicolon between tokens or to a backslash in a
literal; a line comment ends at a line feed. -/
inductive Meets : Option U8 → Bytes → Prop
  | semicolon {p : Option U8} {rest : Bytes} : Meets p (59::rest)
  | backslash {p : Option U8} {lit rest : Bytes} : Inside lit → Meets p (39::(lit++92::rest))
  | byte {p : Option U8} {b : U8} {rest : Bytes} : b ≠ 39 → b ≠ 34 →
    (b = 45 → rest.head? ≠ some 45) → (b = 47 → rest.head? ≠ some 42) →
    (b = 36 → p.any continuesIdentifier ∨ ∀ tag after, rest = tag++36::after → isTag tag = false) →
    Meets (some b) rest → Meets p (b::rest)
  | literal {p : Option U8} {lit rest : Bytes} : Literal lit → rest.head? ≠ some 39 →
    Meets (some 39) rest → Meets p (39::(lit++rest))
  | quoted {p : Option U8} {name rest : Bytes} : Quoted name → rest.head? ≠ some 34 →
    Meets (some 34) rest → Meets p (34::(name++rest))
  | dollar {p : Option U8} {tag body rest : Bytes} : p.any continuesIdentifier = false → isTag tag →
    (∀ k < body.length, ¬(36::tag++[36]) <+: (body++(36::tag++[36])).drop k) →
    Meets (some 36) rest → Meets p (36::(tag++36::(body++((36::tag++[36])++rest))))
  | line {p : Option U8} {body rest : Bytes} : (∀ c ∈ body, c ≠ 10) → Meets (some 10) rest →
    Meets p (45::45::(body++10::rest))
  | block {p : Option U8} {body rest : Bytes} : Closes 1 body → Meets (some 47) rest →
    Meets p (47::42::(body++rest))

section Scan
variable {p : Option U8} {l : Bytes} {fuel : ℕ}

theorem skipLiteral_inside {lit : Bytes} (h : Inside lit) (rest : Bytes) :
    skipLiteral (lit++92::rest) = none := by
  induction h with
  | nil => cases rest <;> rfl
  | quote _ ih => exact ih
  | @byte b lit h39 h92 _ ih =>
    cases lit with
    | nil => simpa [skipLiteral,h39,h92] using ih
    | cons c lit => simpa [skipLiteral,h39,h92] using ih

theorem Meets.ne_nil (h : Meets p l) : l ≠ [] := by cases h <;> simp

theorem meets_line {rest : Bytes} (ih : ∀ {q l}, scanSemicolon fuel q l → Meets q l)
    (h : scanSemicolon fuel (some 45) ((45::rest).dropWhile (· ≠ 10))) : Meets p (45::45::rest) := by
  have hs := takeWhile_append_dropWhile (p := (· ≠ (10 : U8))) (l := rest)
  rw [dropWhile_cons_of_pos (by decide)] at h
  have hbo : ∀ c ∈ rest.takeWhile (· ≠ 10), c ≠ 10 := fun c hc => by
    simpa using mem_takeWhile_imp hc
  have hm := ih h
  cases hl : rest.dropWhile (· ≠ 10) with
  | nil => exact absurd hl hm.ne_nil
  | cons b l =>
    have hb : b = 10 := by
      have hne := List.head?_dropWhile_not (· ≠ (10 : U8)) rest
      rw [hl] at hne
      simpa using hne
    rw [hb] at hl
    rw [hl] at hs hm
    rw [← hs]
    cases hm with
    | byte _ _ _ _ _ hm => exact .line hbo hm

theorem scanSemicolon_dollar {rest : Bytes} (hp : p.any continuesIdentifier = false) :
    scanSemicolon (fuel+1) p (36::rest) =
      if (rest.drop (tagOf rest).length).head? = some 36 ∧
          !rest.head?.any (fun c => 48 ≤ c && c ≤ 57) then
        (skipDollarQuoted (36::tagOf rest++[36]) ((rest.drop (tagOf rest).length).drop 1)).elim false
          (scanSemicolon fuel (some 36))
      else scanSemicolon fuel (some 36) rest := by
  have hno : ¬((36 : U8) = 36 ∧ p.any continuesIdentifier) := by simp [hp]
  rw [scanSemicolon,if_neg (by decide),if_neg (by decide),if_neg (by decide),if_neg hno,if_pos rfl,
    tagOf]
  refine if_congr Iff.rfl ?_ rfl
  cases skipDollarQuoted _ _ <;> rfl

theorem meets_dollar {rest : Bytes} (ih : ∀ {q l}, scanSemicolon fuel q l → Meets q l)
    (hp : p.any continuesIdentifier = false) (h : scanSemicolon (fuel+1) p (36::rest)) :
    Meets p (36::rest) := by
  rw [scanSemicolon_dollar hp] at h
  split_ifs at h with ho
  · obtain ⟨after,ha⟩ := found_tag ho.1
    have hd : (rest.drop (tagOf rest).length).drop 1 = after := by
      nth_rewrite 2 [ha]
      rw [drop_left]
      rfl
    have ht : isTag (tagOf rest) := isTag_tagOf (by simpa using ho.2)
    rw [hd] at h
    cases hs : skipDollarQuoted (36::tagOf rest++[36]) after with
    | none =>
      rw [hs] at h
      cases h
    | some last =>
      rw [hs] at h
      obtain ⟨body,hf,rfl⟩ := body_of_skipDollarQuoted hs
      rw [ha]
      exact .dollar hp ht hf (ih h)
  · refine .byte (by decide) (by decide) nofun nofun (fun _ => .inr ?_) (ih h)
    intro tag after hr
    rw [Bool.eq_false_iff]
    intro ht
    refine ho ⟨?_,?_⟩
    · rw [hr,tagOf,takeWhile_tag ht,drop_left]
      rfl
    · rw [hr,Bool.not_eq_true']
      simp only [isTag,Bool.and_eq_true,Bool.not_eq_true'] at ht
      cases tag with
      | nil => rfl
      | cons c tag => exact ht.2

theorem meets_of_scanSemicolon (h : scanSemicolon fuel p l) : Meets p l := by
  induction fuel generalizing p l with
  | zero => cases h
  | succ fuel ih =>
    cases l with
    | nil => cases h
    | cons b rest =>
      -- the scan skips nothing where it comes to something
      have hg : ∀ {q l'}, scanSemicolon fuel q l' → l' ≠ [] := fun hs => (ih hs).ne_nil
      have hs := h
      rw [scanSemicolon] at h
      split_ifs at h with hse hli hq hi hd hln hbl
      · rw [hse]
        exact .semicolon
      · subst hli
        cases hsk : skipLiteral rest with
        | none =>
          obtain ⟨lit,after,hin,rfl⟩ := inside_of_skipLiteral hsk
          exact .backslash hin
        | some after =>
          rw [hsk] at h
          obtain ⟨lit,hli,hh,rfl⟩ := literal_of_skipLiteral hsk (hg h)
          exact .literal hli hh (ih h)
      · subst hq
        obtain ⟨name,hn,hh,hr⟩ := quoted_of_skipQuotedIdentifier rfl (hg h)
        rw [hr]
        exact .quoted hn hh (ih h)
      · exact .byte hli hq (by simp [hi.1]) (by simp [hi.1]) (fun _ => .inl hi.2) (ih h)
      · subst hd
        have hp : p.any continuesIdentifier = false := by simpa using hi
        exact meets_dollar ih hp hs
      · obtain ⟨rfl,hh⟩ := hln
        obtain ⟨l,rfl⟩ := List.head?_eq_some_iff.1 hh
        exact meets_line ih h
      · obtain ⟨rfl,hh⟩ := hbl
        obtain ⟨l,rfl⟩ := List.head?_eq_some_iff.1 hh
        obtain ⟨body,hbo,hl⟩ := closes_of_skipBlockComment rfl (hg h)
        rw [drop_one,tail_cons] at hl h
        rw [hl]
        exact .block hbo (ih h)
      · exact .byte hli hq (fun hb hh => hln ⟨hb,hh⟩) (fun hb hh => hbl ⟨hb,hh⟩)
          (fun hb => absurd hb hd) (ih h)

theorem scanSemicolon_of_meets (h : Meets p l) (hf : l.length ≤ fuel) : scanSemicolon fuel p l := by
  -- each token costs one unit of fuel, a line comment two, and has at least as many bytes
  induction h generalizing fuel with
  | semicolon =>
    cases fuel with
    | zero => simp at hf
    | succ fuel => simp [scanSemicolon]
  | backslash hin =>
    cases fuel with
    | zero => simp at hf
    | succ fuel => simp [scanSemicolon,skipLiteral_inside hin]
  | byte hq hd hl hbl hdo _ ih =>
    cases fuel with
    | zero => simp at hf
    | succ fuel =>
      exact scan_byte hq hd hl hbl hdo (ih (by simpa using hf))
  | literal hli hh _ ih =>
    cases fuel with
    | zero => simp at hf
    | succ fuel => exact scan_literal hli hh (ih (by simp at hf; omega))
  | quoted hn hh _ ih =>
    cases fuel with
    | zero => simp at hf
    | succ fuel => exact scan_quoted hn hh (ih (by simp at hf; omega))
  | dollar hp ht hfi _ ih =>
    cases fuel with
    | zero => simp at hf
    | succ fuel => exact scan_dollar hp ht hfi (ih (by simp at hf; omega))
  | line hb _ ih =>
    rcases fuel with _ | _ | fuel
    · simp at hf
    · simp at hf
    · exact scan_line hb (ih (by simp at hf; omega))
  | block hb _ ih =>
    cases fuel with
    | zero => simp at hf
    | succ fuel => exact scan_block hb (ih (by simp at hf; omega))

theorem hasTopLevelSemicolon_iff : hasTopLevelSemicolon l ↔ Meets none l :=
  ⟨meets_of_scanSemicolon,fun h => scanSemicolon_of_meets h le_rfl⟩

end Scan

/-- The text begins with the word after a gap. -/
def Begins (keyword text : Bytes) : Prop :=
  ∃ gap after, Gap gap ∧ Starts keyword after ∧ text = gap++after

section Keyword
variable {keyword text : Bytes}

theorem begins_of_firstStatementKeyword {word : Bytes} (hcr : ∀ b ∈ text, b ≠ 13)
    (h : firstStatementKeyword text = some word) (hw : eqIgnoreAsciiCase word keyword) :
    Begins keyword text := by
  obtain ⟨rest,hsk,hr⟩ := Option.bind_eq_some_iff.1 h
  rw [Option.ite_none_left_eq_some,Option.some.injEq] at hr
  obtain ⟨hne,rfl⟩ := hr
  have hs : rest ≠ [] := by
    rintro rfl
    exact hne rfl
  obtain ⟨gap,hg,ht⟩ := skipped_of_skipBlank hsk hs hcr
  have hl : keyword.length = (rest.takeWhile isWordByte).length := by
    simp only [eqIgnoreAsciiCase,decide_eq_true_eq] at hw
    simpa using (congrArg List.length hw).symm
  have hta : rest.take (rest.takeWhile isWordByte).length = rest.takeWhile isWordByte :=
    (List.prefix_iff_eq_take.1 (List.takeWhile_prefix isWordByte)).symm
  have hdr : rest.drop (rest.takeWhile isWordByte).length = rest.dropWhile isWordByte := by
    nth_rewrite 2 [← takeWhile_append_dropWhile (p := isWordByte) (l := rest)]
    exact drop_left
  refine ⟨gap,rest,hg,⟨?_,?_⟩,ht⟩
  · rw [hl,hta]
    exact hw
  · have he := List.head?_dropWhile_not isWordByte rest
    rw [hl,hdr]
    cases hd : (rest.dropWhile isWordByte).head? with
    | none => rfl
    | some b =>
      rw [hd] at he
      exact he

theorem tidy_reading (l : Bytes) : tidy (reading l) := by
  induction l with
  | nil => rfl
  | cons b l ih =>
    obtain ⟨hcr,hvt⟩ := readByte_ne b
    rw [reading,map_cons,tidy,decide_eq_true hvt,decide_eq_true hcr]
    exact ih

theorem ne_of_mem_reading {l : Bytes} : ∀ b ∈ reading l, b ≠ 13 := by
  intro b hb
  obtain ⟨a,_,rfl⟩ := mem_map.1 hb
  exact (readByte_ne a).1

/-- A keyword that begins a statement is found exactly where, by the gateway's reading of the bytes,
a keyword is the first one or the text goes on past a semicolon. -/
theorem leadingStatementKeywordMatches_iff {keywords : List Bytes}
    (hk : ∀ k ∈ keywords, k.all isWordByte ∧ k ≠ []) (h : ∃ k ∈ keywords, Leads k text) :
    leadingStatementKeywordMatches text keywords ↔
      (∃ k ∈ keywords, Begins k (reading text)) ∨ Meets none (trimStatementEnd (reading text)) := by
  have hto : keywords.any (containsTokenCi text) := by
    obtain ⟨k,hm,hl⟩ := h
    exact any_eq_true.2 ⟨k,hm,containsTokenCi_of_occurs hl.occurs (hk k hm).1 (hk k hm).2⟩
  rw [leadingStatementKeywordMatches,← firstStatementKeyword_reading,← hasTopLevelSemicolon_reading,
    ← trimStatementEnd_reading,hto,← hasTopLevelSemicolon_iff]
  have hf : ((firstStatementKeyword (reading text)).any fun first =>
      keywords.any (eqIgnoreAsciiCase first)) ↔ ∃ k ∈ keywords, Begins k (reading text) := by
    rw [Option.any_eq_true]
    constructor
    · rintro ⟨word,hw,ha⟩
      obtain ⟨k,hm,heq⟩ := any_eq_true.1 ha
      exact ⟨k,hm,begins_of_firstStatementKeyword ne_of_mem_reading hw heq⟩
    · rintro ⟨k,hm,gap,after,hg,hs,hte⟩
      have ht := tidy_reading text
      rw [hte] at ht ⊢
      exact ⟨_,firstStatementKeyword_leads hg hs (hk k hm).1 (hk k hm).2 ht,
        any_eq_true.2 ⟨k,hm,hs.word⟩⟩
  rw [← hf]
  split_ifs with ho hse <;> simp_all

end Keyword

def sessionKeywords : List Bytes :=
  [ascii "set",ascii "reset",ascii "deallocate",ascii "discard",ascii "create",ascii "prepare",
    ascii "declare",ascii "do",ascii "load",ascii "call"]

theorem sessionKeywords_word : ∀ k ∈ sessionKeywords, k.all isWordByte ∧ k ≠ [] := by decide

theorem prefilter_complete_iff (text : Bytes) :
    ((∃ k ∈ sessionKeywords, Leads k text) → mightContainSessionStateCommand text) ↔
      ((∃ k ∈ sessionKeywords, Leads k text) →
        (∃ k ∈ sessionKeywords, Begins k (reading text)) ∨
          Meets none (trimStatementEnd (reading text))) :=
  forall_congr' (leadingStatementKeywordMatches_iff sessionKeywords_word)

theorem lexed_dollar : Lexed 59 (ascii "SELECT 1$$'$$") := by
  have hd : Lexed 59 (36::([]++36::([39]++((36::[]++[36])++[])))) := by
    refine .dollar rfl (fun k hk => ?_) .nil
    obtain rfl : k = 0 := Nat.lt_one_iff.1 hk
    decide
  have hn : Lexed 59 (49::[]++36::36::39::36::[36]) := .number (by decide) rfl hd
  have hs : Lexed 59 (32::49::36::36::39::36::[36]) :=
    .byte (by decide) (by decide) (by decide) (by decide) (by decide) (fun h => by cases h) hn
  exact @Lexed.word 59 83 (ascii "ELECT") _ (by decide) (by decide) (by decide) hs

/-- A statement after a vertical tab, one after a comment that a carriage return ends, and one after a
dollar quote that follows a number. -/
theorem prefilter_misses :
    [[11],ascii "--\r",ascii "SELECT 1$$'$$;"].Forall fun start =>
      Leads (ascii "set") (start++ascii "SET x = 1") ∧
        mightContainSessionStateCommand (start++ascii "SET x = 1") = false := by
  have hs : Starts (ascii "set") (ascii "SET x = 1") := ⟨by decide,by decide⟩
  refine ⟨⟨?_,by decide⟩,⟨?_,by decide⟩,?_,by decide⟩
  · exact .first _ _ (.space (by decide) .nil) hs rfl
  · exact .first _ _ (@Gap.line [] 13 [] (by simp) (.inr rfl) Gap.nil) hs rfl
  · exact .later _ [] _ lexed_dollar .nil hs rfl

end Prefilter
end PgBattery
