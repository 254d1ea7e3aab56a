import PgBattery.Lexical

/-! The fused keyword scan against the search for one token: skipping a matched keyword loses nothing,
since a word that starts inside another one has a word byte before it. -/
namespace PgBattery
namespace KeywordScan
open Postcard Analysis Lexical List

/-- The tokens that raise each flag. -/
def group : KeywordKind → List Bytes
  | .functionState => [ascii "set_config",ascii "pg_advisory_lock",ascii "pg_advisory_lock_shared",
      ascii "pg_try_advisory_lock",ascii "pg_try_advisory_lock_shared"]
  | .tempObject => [ascii "temp",ascii "temporary",ascii "pg_temp"]
  | .subscription => [ascii "listen",ascii "unlisten"]

theorem mem_keywords : ∀ kind, ∀ token ∈ group kind, (token,kind) ∈ keywords := by
  intro kind
  cases kind <;> decide

theorem mem_group : ∀ k ∈ keywords, k.1 ∈ group k.2 := by decide

section Search
variable {token : Bytes} {before : Option U8}

theorem exists_starts_of_containsTokenFrom {l : Bytes} (h : containsTokenFrom token before l) :
    ∃ skipped after, l = skipped++after ∧ (skipped.getLast?.or before).any isWordByte = false ∧
      Starts token after := by
  induction l generalizing before with
  | nil => exact absurd h Bool.false_ne_true
  | cons b l ih =>
    rcases Bool.or_eq_true_iff.1 h with hh | hl
    · obtain ⟨hs,hb⟩ := matchesAt_iff.1 hh
      exact ⟨[],b::l,rfl,hb,hs⟩
    · obtain ⟨skipped,after,rfl,hb,hs⟩ := ih hl
      refine ⟨b::skipped,after,rfl,?_,hs⟩
      rw [getLast?_cons_or]
      exact hb

theorem occurs_of_containsTokenCi {query : Bytes} (h : containsTokenCi query token) : Occurs token query := by
  have hf := (Bool.and_eq_true_iff.1 h).2
  obtain ⟨skipped,after,rfl,hb,hs⟩ := exists_starts_of_containsTokenFrom hf
  rw [Option.or_none] at hb
  exact ⟨skipped,after,rfl,hb,hs⟩

end Search

theorem flag_of_flag_set {kind other : KeywordKind} {flags : QueryKeywordFlags}
    (h : flag kind (flags.set other)) : flag kind flags ∨ other = kind := by
  cases kind <;> cases other <;> first | exact .inl h | exact .inr rfl

theorem found_of_scanKeywords {kind : KeywordKind} {skip : ℕ} {before : Option U8}
    {flags : QueryKeywordFlags} {l : Bytes} (h : flag kind (scanKeywords skip before flags l)) :
    flag kind flags ∨ ∃ token ∈ group kind, containsTokenFrom token before l := by
  have hl : ∀ {b : U8} {l : Bytes} {before : Option U8},
      (∃ token ∈ group kind, containsTokenFrom token (some b) l) →
        ∃ token ∈ group kind, containsTokenFrom token before (b::l) := by
    rintro b l before ⟨token,hm,hf⟩
    exact ⟨token,hm,Bool.or_eq_true_iff.2 (.inr hf)⟩
  induction l generalizing skip before flags with
  | nil => cases skip <;> exact .inl h
  | cons b l ih =>
    cases skip with
    | succ skip => exact (ih h).imp_right hl
    | zero =>
      simp only [scanKeywords] at h
      split at h
      · next token other hfi =>
        rcases ih h with hs | hf
        · rcases flag_of_flag_set hs with hfl | rfl
          · exact .inl hfl
          · have hm := mem_group _ (List.mem_of_find?_eq_some hfi)
            have hma := List.find?_some hfi
            exact .inr ⟨token,hm,Bool.or_eq_true_iff.2 (.inl hma)⟩
        · exact .inr (hl hf)
      · exact (ih h).imp_right hl

theorem keywords_kind : ∀ k ∈ keywords, ∀ k' ∈ keywords,
    k'.1.map toAsciiLowercase = k.1.map toAsciiLowercase → k'.2 = k.2 := by decide

/-- Each flag is raised exactly when one of its tokens stands in the text as a word. -/
theorem queryKeywordFlags_eq_search (query : Bytes) (kind : KeywordKind) :
    flag kind (queryKeywordFlags query) = (group kind).any (containsTokenCi query) := by
  rw [Bool.eq_iff_iff,any_eq_true]
  constructor
  · intro h
    rcases found_of_scanKeywords h with hno | ⟨token,hm,hf⟩
    · cases kind <;> cases hno
    · have hne := (keywords_word _ (mem_keywords kind token hm)).2
      refine ⟨token,hm,?_⟩
      rw [containsTokenCi,hf,decide_eq_true hne]
      rfl
  · rintro ⟨token,hm,hf⟩
    have hke := mem_keywords kind token hm
    exact queryKeywordFlags_of_occurs (occurs_of_containsTokenCi hf) (keywords_word _ hke).1
      (fun k hk => keywords_kind _ hke k hk) hke

-- `unlisten` is one word: it raises its own flag, and `listen` is not found inside it
example : flag .subscription (queryKeywordFlags (ascii "UNLISTEN a")) = true ∧
    containsTokenCi (ascii "UNLISTEN a") (ascii "listen") = false := by decide

end KeywordScan
end PgBattery
