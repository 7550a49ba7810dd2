import LiveModules.ModuleName
import Mathlib.Data.List.DropRight

/-!
# Which names hold modules

A name without slashes has the extension that stands behind its last dot, if something stands before
that dot (`extension?_eq_some_iff`). So a name that is not hidden holds a module of extension `e`
exactly if it ends in `.e` and there is no dot in `e` (`eligible_iff`).
-/

namespace LiveModules.ModuleName

variable {sep : Char} {cs stem behind path : List Char} {name : String}

/-! ## Components -/

theorem splitAt_of_not_mem : ∀ {cs : List Char}, sep ∉ cs → splitAt sep cs = [cs]
  | [], _ => rfl
  | c :: cs, h => by
    obtain ⟨hc, hcs⟩ := not_or.1 (mt List.mem_cons.2 h)
    rw [splitAt, if_neg (Ne.symm hc), splitAt_of_not_mem hcs]

theorem not_mem_of_mem_splitAt : ∀ {cs part : List Char}, part ∈ splitAt sep cs → sep ∉ part
  | [], part, h => by
    rw [List.mem_singleton.1 h]
    exact List.not_mem_nil
  | c :: cs, part, h => by
    have ih : ∀ part ∈ splitAt sep cs, sep ∉ part := fun _ => not_mem_of_mem_splitAt
    rw [splitAt] at h
    split_ifs at h with hc
    · rcases List.mem_cons.1 h with rfl | h
      · exact List.not_mem_nil
      · exact ih part h
    · rcases hcut : splitAt sep cs with _ | ⟨first, parts⟩ <;> simp only [hcut] at h ih
      · rw [List.mem_singleton.1 h]
        simpa using Ne.symm hc
      · rcases List.mem_cons.1 h with rfl | h
        · exact mt List.mem_cons.1 (not_or.2 ⟨Ne.symm hc, ih first List.mem_cons_self⟩)
        · exact ih part (List.mem_cons_of_mem _ h)

theorem lastComponent?_of_not_mem (h : '/' ∉ cs) (hne : cs ≠ []) : lastComponent? cs = some cs := by
  simp [lastComponent?, splitAt_of_not_mem h, hne]

theorem not_mem_of_lastComponent? {part : List Char} (h : lastComponent? path = some part) :
    '/' ∉ part := by
  have hparts : ∀ part ∈ splitAt '/' path, '/' ∉ part := fun _ => not_mem_of_mem_splitAt
  unfold lastComponent? at h
  split at h
  · cases h
  · rename_i first parts hcut
    rw [hcut] at hparts
    refine hparts part ?_
    have hmem := List.mem_of_getLast? h
    split_ifs at hmem
    · exact List.mem_cons_of_mem _ (List.mem_filter.1 hmem).1
    · rcases List.mem_cons.1 hmem with rfl | hmem
      · exact List.mem_cons_self
      · exact List.mem_cons_of_mem _ (List.mem_filter.1 hmem).1

/-! ## What stands behind the last dot -/

def behindLastDot (cs : List Char) : List Char := cs.rtakeWhile (· ≠ '.')

theorem not_mem_behindLastDot (cs : List Char) : '.' ∉ behindLastDot cs := fun h => by
  simpa using List.mem_rtakeWhile_imp h

theorem behindLastDot_append (h : '.' ∉ behind) :
    behindLastDot (stem ++ '.' :: behind) = behind := by
  have hall : ∀ c ∈ behind.reverse, decide (c ≠ '.') = true := fun c hc =>
    decide_eq_true fun he => h (he ▸ List.mem_reverse.1 hc)
  rw [behindLastDot, List.rtakeWhile, List.reverse_append, List.reverse_cons, List.append_assoc,
    List.takeWhile_append_of_pos hall, List.singleton_append, List.takeWhile_cons_of_neg (by simp),
    List.append_nil, List.reverse_reverse]

/-- Before what stands behind the last dot are that dot and a stem, unless there is no dot. -/
theorem behindLastDot_cases (cs : List Char) :
    cs = behindLastDot cs ∨ ∃ stem, cs = stem ++ '.' :: behindLastDot cs := by
  have hcs : cs.rdropWhile (· ≠ '.') ++ behindLastDot cs = cs :=
    List.rdropWhile_append_rtakeWhile ..
  have hlast := List.rdropWhile_last_not (· ≠ '.') cs
  rcases List.eq_nil_or_concat (cs.rdropWhile (· ≠ '.')) with hdrop | ⟨stem, c, hdrop⟩ <;>
    simp only [hdrop] at hcs hlast
  · exact .inl hcs.symm
  · obtain rfl : c = '.' := by simpa using hlast
    exact .inr ⟨stem, by simpa using hcs.symm⟩

theorem extension?_of_not_mem (h : '/' ∉ cs) (hdots : cs ≠ ['.'] ∧ cs ≠ ['.', '.']) :
    extension? cs = if cs.length - (behindLastDot cs).length ≤ 1 then none
      else some (behindLastDot cs) := by
  by_cases hne : cs = []
  · subst hne
    rfl
  · rw [extension?, lastComponent?_of_not_mem h hne]
    dsimp only
    rw [if_neg (not_or.2 hdots)]
    rfl

/-- A name has the extension behind its last dot, if that dot does not lead the name. -/
theorem extension?_eq_some_iff (h : '/' ∉ cs) (hdots : cs ≠ ['.'] ∧ cs ≠ ['.', '.']) :
    extension? cs = some behind ↔
      '.' ∉ behind ∧ ∃ stem, stem ≠ [] ∧ cs = stem ++ '.' :: behind := by
  rw [extension?_of_not_mem h hdots]
  constructor
  · intro hb
    split_ifs at hb with hlength
    cases hb
    refine ⟨not_mem_behindLastDot cs, ?_⟩
    rcases behindLastDot_cases cs with hcs | ⟨stem, hcs⟩
    · rw [← hcs, Nat.sub_self] at hlength
      exact absurd (Nat.zero_le 1) hlength
    · refine ⟨stem, ?_, hcs⟩
      rintro rfl
      have := congrArg List.length hcs
      simp only [List.nil_append, List.length_cons] at this
      omega
  · rintro ⟨hdot, stem, hstem, rfl⟩
    have hpos := List.length_pos_iff.2 hstem
    rw [behindLastDot_append hdot, List.length_append, List.length_cons, if_neg (by omega)]

/-- No extension has a dot or a slash. -/
theorem not_mem_of_extension? (h : extension? path = some behind) :
    '.' ∉ behind ∧ '/' ∉ behind := by
  unfold extension? at h
  split at h
  · cases h
  · rename_i part hpart
    dsimp only at h
    split_ifs at h
    cases h
    refine ⟨not_mem_behindLastDot part, fun hs => not_mem_of_lastComponent? hpart ?_⟩
    exact (List.rtakeWhile_suffix ..).subset hs

/-! ## Names -/

/-- The name is not empty, and neither a dot nor a tilde hides it. -/
structure Shown (name : String) : Prop where
  ne_empty : name ≠ ""
  no_dot : name.toList.head? ≠ some '.'
  no_tilde : name.toList.head? ≠ some '~'

theorem shown_iff {c : Char} {rest : List Char} (h : name.toList = c :: rest) :
    Shown name ↔ c ≠ '.' ∧ c ≠ '~' := by
  constructor
  · intro hs
    exact ⟨fun hc => hs.no_dot (by rw [h, hc]; rfl), fun hc => hs.no_tilde (by rw [h, hc]; rfl)⟩
  · rintro ⟨hdot, htilde⟩
    refine ⟨?_, by simpa [h] using hdot, by simpa [h] using htilde⟩
    rintro rfl
    cases h

theorem Shown.not_dots (h : Shown name) : name.toList ≠ ['.'] ∧ name.toList ≠ ['.', '.'] :=
  ⟨fun he => h.no_dot (by rw [he]; rfl), fun he => h.no_dot (by rw [he]; rfl)⟩

theorem eligible_none_iff : eligible name none = true ↔ Shown name := by
  unfold eligible
  split
  · rename_i h
    exact iff_of_false Bool.false_ne_true fun hs => hs.ne_empty (String.toList_eq_nil_iff.1 h)
  · rename_i c rest h
    simp [shown_iff h]

theorem eligible_some_iff {e : String} :
    eligible name (some e) = true ↔ Shown name ∧ extension? name.toList = some e.toList := by
  unfold eligible
  split
  · rename_i h
    exact iff_of_false Bool.false_ne_true fun hs => hs.1.ne_empty (String.toList_eq_nil_iff.1 h)
  · rename_i c rest h
    simp [shown_iff h, h]

theorem toList_dotted (stem behind : String) :
    (stem ++ "." ++ behind).toList = stem.toList ++ '.' :: behind.toList := by
  rw [String.toList_append, String.toList_append, List.append_assoc]
  rfl

theorem exists_stem_iff {e : String} : (∃ stem, stem ≠ "" ∧ name = stem ++ "." ++ e) ↔
    ∃ stem, stem ≠ [] ∧ name.toList = stem ++ '.' :: e.toList := by
  constructor
  · rintro ⟨stem, hstem, rfl⟩
    exact ⟨stem.toList, mt String.toList_eq_nil_iff.1 hstem, toList_dotted stem e⟩
  · rintro ⟨stem, hstem, h⟩
    refine ⟨String.ofList stem, fun he => hstem ?_, String.toList_inj.1 ?_⟩
    · rw [← String.toList_ofList (l := stem), he]
      rfl
    · rw [h, toList_dotted, String.toList_ofList]

theorem eligible_some_iff_exists_stem (h : '/' ∉ name.toList) {e : String} :
    eligible name (some e) = true ↔
      Shown name ∧ '.' ∉ e.toList ∧ ∃ stem, stem ≠ "" ∧ name = stem ++ "." ++ e := by
  rw [eligible_some_iff, exists_stem_iff]
  exact and_congr_right fun hs => extension?_eq_some_iff h hs.not_dots

/-- A name without slashes that is shown holds a module if any extension will do; where an extension
is set, just if it is a stem, a dot and that extension, in which there is no dot. So it holds one of
the extension behind its last dot and of no other, and an extension with a dot or a slash in it is
that of no name. -/
theorem eligible_iff :
    (∀ name : String, '/' ∉ name.toList →
      (eligible name none = true ↔ Shown name) ∧
      ∀ e : String, (eligible name (some e) = true ↔
          Shown name ∧ '.' ∉ e.toList ∧ ∃ stem, stem ≠ "" ∧ name = stem ++ "." ++ e) ∧
        ∀ stem behind : String, name = stem ++ "." ++ behind → '.' ∉ behind.toList →
          (eligible name (some e) = true ↔ Shown name ∧ e = behind)) ∧
    ∀ e : String, '.' ∈ e.toList ∨ '/' ∈ e.toList → ∀ name, eligible name (some e) = false := by
  refine ⟨fun name h => ⟨eligible_none_iff, fun e => ⟨eligible_some_iff_exists_stem h, ?_⟩⟩, ?_⟩
  · intro stem behind hname hdot
    rw [eligible_some_iff]
    refine and_congr_right fun hs => ?_
    have hstem : stem.toList ≠ [] := fun hn => hs.no_dot (by rw [hname, toList_dotted, hn]; rfl)
    have hbehind : extension? name.toList = some behind.toList :=
      (extension?_eq_some_iff h hs.not_dots).2
        ⟨hdot, stem.toList, hstem, by rw [hname, toList_dotted]⟩
    rw [hbehind, Option.some.injEq, String.toList_inj]
    exact eq_comm
  · intro e he name
    rw [← Bool.not_eq_true, eligible_some_iff]
    rintro ⟨-, hext⟩
    obtain ⟨hdot, hslash⟩ := not_mem_of_extension? hext
    exact he.elim hdot hslash

/-- Of a name with two dots the last one counts. -/
theorem tower_eligible :
    '/' ∉ "tower.v2.lua".toList ∧ eligible "tower.v2.lua" (some "lua") = true ∧
      eligible "tower.v2.lua" (some "v2") = false ∧
      eligible "tower.v2.lua" (some "v2.lua") = false := by
  have hslash : '/' ∉ "tower.v2.lua".toList := by decide
  have hshown : Shown "tower.v2.lua" := ⟨by decide, by decide, by decide⟩
  have hbehind (e : String) := ((eligible_iff.1 "tower.v2.lua" hslash).2 e).2 "tower.v2" "lua"
    rfl (by decide)
  refine ⟨hslash, (hbehind "lua").2 ⟨hshown, rfl⟩, ?_, eligible_iff.2 "v2.lua" (by decide) _⟩
  exact Bool.not_eq_true _ |>.mp fun h => absurd ((hbehind "v2").1 h).2 (by decide)

end LiveModules.ModuleName
