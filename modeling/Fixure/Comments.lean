import Fixure.Dictionary

/-!
# Texts that are scanned to their end

A text is accepted exactly when it consists of whole tags and whole comments. Behind such a
text the scan goes on as at the start of what follows, and a comment leaves no trace there.
-/

namespace Fixure
open Search

/-- The scanner is outside any tag and any comment at the end of the text. -/
def Outside (text : Bytes) : Prop := ∃ tags, HasTags tags text

section Scanning
variable {gap : Bytes} (hgap : 60 ∉ gap)
include hgap

theorem readFrom_gap_append (r : Reader) (xml : Bytes) :
    readFrom r (gap ++ xml) = readFrom r xml := by
  have hfree : ¬ ascii "<" <:+: gap := fun h => hgap ((List.singleton_infix_iff _ _).mp h)
  have hstraddle : NoStraddle (ascii "<") gap xml := by
    intro p q hp hq hpq
    rcases List.append_eq_singleton_iff.mp hpq.symm with ⟨hnil, _⟩ | ⟨_, hnil⟩
    · exact absurd hnil hp
    · exact absurd hnil hq
  rw [readFrom_eq, readFrom_eq r xml, find_append_left (by decide) hfree hstraddle]
  cases find (ascii "<") xml with
  | none => rfl
  | some tagStart =>
    simp only [Option.map_some, substr_append_add, findFrom_append_add, Nat.add_assoc]
    split_ifs
    · cases findFrom (ascii "-->") xml (tagStart + 4) with
      | none => rfl
      | some commentEnd =>
        simp only [Option.map_some, Nat.add_assoc, ← List.drop_drop, List.drop_left]
    · cases findFrom (ascii ">") xml tagStart with
      | none => rfl
      | some tagEnd =>
        simp only [Option.map_some, Nat.add_assoc, ← List.drop_drop, List.drop_left,
          Nat.add_sub_add_left]

theorem readFrom_unclosedComment {rest : Bytes} (hrest : ¬ ascii "-->" <:+: rest) (r : Reader) :
    readFrom r (gap ++ (ascii "<!--" ++ rest)) =
      .error (ascii "Malformed XML: unclosed comment") := by
  have hnone : findFrom (ascii "-->") (ascii "<!--" ++ rest) 4 = none := by
    rw [findFrom_eq_none_iff]
    exact hrest
  rw [readFrom_gap_append hgap, readFrom_eq]
  have hstart : find (ascii "<") (ascii "<!--" ++ rest) = some 0 := find_prefix (ascii "!--" ++ rest)
  have hmark : substr (ascii "<!--" ++ rest) 0 4 = ascii "<!--" := List.take_left' rfl
  simp only [hstart, hmark, hnone, if_true, Nat.zero_add]

theorem readFrom_unclosedTag {rest : Bytes} (hcomment : ¬ ascii "!--" <+: rest)
    (hrest : 62 ∉ rest) (r : Reader) :
    readFrom r (gap ++ 60 :: rest) = .error (ascii "Malformed XML: unclosed tag") := by
  have hstart : find (ascii "<") (60 :: rest) = some 0 := find_prefix rest
  have hmark : substr (60 :: rest) 0 4 ≠ ascii "<!--" := by
    intro h
    have htake : rest.take 3 = ascii "!--" := (List.cons.inj h).2
    exact hcomment (htake ▸ List.take_prefix _ _)
  have hnone : findFrom (ascii ">") (60 :: rest) 0 = none := by
    rw [findFrom_eq_none_iff]
    intro h
    have hmem : (62 : UInt8) ∈ 60 :: rest := (List.singleton_infix_iff _ _).mp h
    rcases List.mem_cons.mp hmem with heq | hmem
    · exact absurd heq (by decide)
    · exact hrest hmem
  rw [readFrom_gap_append hgap, readFrom_eq]
  simp only [hstart, hnone, if_neg hmark]

end Scanning

theorem outside_of_readFrom {r : Reader} {xml : Bytes} {d : Dictionary}
    (h : readFrom r xml = .ok d) : Outside xml := by
  induction hn : xml.length using Nat.strong_induction_on generalizing r xml with
  | _ n ih =>
    by_cases hopen : 60 ∈ xml
    · obtain ⟨gap, rest, rfl, hgap⟩ := List.eq_append_cons_of_mem hopen
      by_cases hcomment : ascii "!--" <+: rest
      · obtain ⟨rest, rfl⟩ := hcomment
        have htext : gap ++ 60 :: (ascii "!--" ++ rest) = gap ++ (ascii "<!--" ++ rest) := rfl
        rw [htext] at h hn ⊢
        by_cases hend : ascii "-->" <:+: rest
        · obtain ⟨i, hi⟩ := Option.isSome_iff_exists.mp (find_isSome_iff.mpr hend)
          obtain ⟨c, tail, rfl, _, hfirst⟩ := find_eq_some_split (by decide) hi
          rw [List.append_assoc] at h hn ⊢
          rw [readFrom_comment hgap hfirst] at h
          have hlen : tail.length < n := by
            rw [← hn]
            simp only [List.length_append]
            have hpos : 0 < (ascii "-->").length := by decide
            omega
          obtain ⟨tags, htags⟩ := ih _ hlen h rfl
          exact ⟨tags, .comment hgap hfirst htags⟩
        · rw [readFrom_unclosedComment hgap hend] at h
          cases h
      · by_cases hend : 62 ∈ rest
        · obtain ⟨content, tail, rfl, hcontent⟩ := List.eq_append_cons_of_mem hend
          have hname : ¬ ascii "!--" <+: content := fun hp => hcomment (hp.trans ⟨_, rfl⟩)
          rw [readFrom_tag hgap hcontent hname] at h
          have hlen : tail.length < n := by
            rw [← hn]
            simp only [List.length_append, List.length_cons]
            omega
          obtain ⟨tags, htags⟩ := ih _ hlen h rfl
          exact ⟨content :: tags, .tag hgap hcontent hname htags⟩
        · rw [readFrom_unclosedTag hgap hcomment hend] at h
          cases h
    · exact ⟨[], .nil hopen⟩

theorem outside_iff {text : Bytes} : Outside text ↔ ∃ d, Dictionary.parseXml text = .ok d := by
  constructor
  · intro h
    obtain ⟨tags, htags⟩ := h
    exact ⟨_, Dictionary.parseXml_hasTags htags⟩
  · intro h
    obtain ⟨d, hd⟩ := h
    exact outside_of_readFrom (r := {}) hd

theorem readFrom_hasTags_append {tags : List Bytes} {text : Bytes} (h : HasTags tags text)
    (r : Reader) (more : Bytes) :
    readFrom r (text ++ more) = readFrom (tags.foldl Reader.readTag r) more := by
  induction h generalizing r with
  | nil hgap => exact readFrom_gap_append hgap r more
  | comment hgap hc _ ih =>
    simp only [List.append_assoc]
    rw [readFrom_comment hgap hc]
    exact ih r
  | tag hgap hend hcomment _ ih =>
    rw [List.append_assoc, List.cons_append, List.append_assoc, List.cons_append,
      readFrom_tag hgap hend hcomment]
    exact ih _

/-- The first end behind a comment without an end in it is the end of the comment. -/
theorem end_notInfix {c : Bytes} (hc : ¬ ascii "-->" <:+: c) :
    ¬ ascii "-->" <:+: c ++ ascii "--" := by
  have hone (x : Bytes) (hx : ¬ ascii "-->" <:+: x) : ¬ ascii "-->" <:+: x ++ [45] := by
    intro h
    rcases List.infix_concat_iff.mp h with h | h
    · have hlast := (List.suffix_concat_iff.mp h).resolve_left (by decide)
      obtain ⟨t, ht, _⟩ := hlast
      exact absurd (congrArg List.getLast? ht) (by simp; decide)
    · exact hx h
  have htwo : c ++ ascii "--" = (c ++ [45]) ++ [45] := by simp; rfl
  rw [htwo]
  exact hone _ (hone _ hc)

/-- A comment between two texts changes nothing. -/
theorem parseXml_comment {a c : Bytes} (ha : Outside a) (hc : ¬ ascii "-->" <:+: c) (b : Bytes) :
    Dictionary.parseXml (a ++ ascii "<!--" ++ c ++ ascii "-->" ++ b) =
      Dictionary.parseXml (a ++ b) := by
  obtain ⟨tags, htags⟩ := ha
  have hcomment :=
    readFrom_comment List.not_mem_nil (end_notInfix hc) (tags.foldl Reader.readTag {}) b
  have hwith := readFrom_hasTags_append htags {} (ascii "<!--" ++ (c ++ (ascii "-->" ++ b)))
  calc Dictionary.parseXml (a ++ ascii "<!--" ++ c ++ ascii "-->" ++ b)
      = readFrom {} (a ++ (ascii "<!--" ++ (c ++ (ascii "-->" ++ b)))) := by
        rw [Dictionary.parseXml, readFrom]
        simp only [List.append_assoc]
    _ = readFrom (tags.foldl Reader.readTag {}) (ascii "<!--" ++ (c ++ (ascii "-->" ++ b))) := hwith
    _ = readFrom (tags.foldl Reader.readTag {}) b := hcomment
    _ = Dictionary.parseXml (a ++ b) := (readFrom_hasTags_append htags {} b).symm

/-- A comment that holds an element and ends in a hyphen. -/
theorem parseXml_comment_element :
    Dictionary.parseXml (ascii "<fields>" ++ ascii "<!--" ++
        ascii "<field number='1' name=\"A\"/> -" ++ ascii "-->" ++ ascii "</fields>") =
      Dictionary.parseXml (ascii "<fields>" ++ ascii "</fields>") :=
  parseXml_comment ⟨[ascii "fields"], hasTags_spell (by decide +kernel)⟩ (by decide +kernel) _

end Fixure
