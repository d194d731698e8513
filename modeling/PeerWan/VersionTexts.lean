import PeerWan.LastWrite
import PeerWan.PlanAnswers

/-!
# The versions of plans as texts

The controller prints the number of a plan with its own `itoa`, behind a fixed
word, and the agent reads it with `parseNumericVersion`. On the positive numbers
of 64 bits the two are inverse, so plans keep the order of their numbers.
-/

namespace PeerWan

structure Canonical (v : Int) (s : String) : Prop where
  nonempty : s.toList ≠ []
  digits : ∀ c ∈ s.toList, c.isDigit
  noLeadingZero : s.toList.head? ≠ some '0'
  value : digitsValue s.toList = v

theorem canonical_toString {v : Int} (hpos : 0 < v) : Canonical v (toString v) := by
  obtain ⟨n, rfl⟩ := Int.eq_ofNat_of_zero_le hpos.le
  have hlist : (toString (n : Int)).toList = Nat.toDigits 10 n := toList_toString_int n
  constructor
  · rw [hlist]
    exact Nat.toDigits_ne_nil
  · rw [hlist]
    exact fun c hc => isDigit_of_mem_numeral hc
  · rw [hlist]
    exact head?_toDigits (by omega)
  · rw [hlist, digitsValue_toDigits]

theorem parseNumericVersion_dynamic (s : String) : parseNumericVersion ("dynamic-v" ++ s) = (parseInt s).getD 0 := by
  have hprefix : "dynamic-v".toList <+: ("dynamic-v" ++ s).toList := ⟨s.toList, String.toList_append.symm⟩
  rw [parseNumericVersion]
  rw [if_pos hprefix, String.toList_append, List.drop_left, String.ofList_toList]

section

variable {v : Int}

theorem itoa_of_int64 (hpos : 0 < v) (hv : IsInt64 v) : itoa v = toString v := by
  have hbounds := hv.bounds
  exact itoa_eq_toString hpos.le (by omega)

theorem parseNumericVersion_itoa (hpos : 0 < v) (hv : IsInt64 v) : parseNumericVersion ("dynamic-v" ++ itoa v) = v := by
  rw [parseNumericVersion_dynamic, itoa_of_int64 hpos hv, parseInt_toString, if_pos (show int64 v = v from hv)]
  rfl

theorem parseNumericVersion_planConfigVersion (env : Env) (hpos : 0 < v) (hv : IsInt64 v) :
    parseNumericVersion (planConfigVersion env v) = v := by
  rw [planConfigVersion, if_pos hpos]
  exact parseNumericVersion_itoa hpos hv

/-- The digit loop stays inside its buffer and gives the canonical numeral, the
agent reads the number back, and no two numbers have one text. -/
theorem itoa_round_trip (hpos : 0 < v) (hv : IsInt64 v) : Canonical v (itoa v) ∧
    (itoaDigits 20 v.toNat []).isSome = true ∧ parseNumericVersion ("dynamic-v" ++ itoa v) = v ∧
    ∀ w, 0 < w → IsInt64 w → v ≠ w → ∀ env env', planConfigVersion env v ≠ planConfigVersion env' w := by
  have hbounds := hv.bounds
  refine ⟨?_, ?_, parseNumericVersion_itoa hpos hv, ?_⟩
  · rw [itoa_of_int64 hpos hv]
    exact canonical_toString hpos
  · rw [itoaDigits_eq (by omega)]
    rfl
  · intro w hpos' hw hne env env' hsame
    have hread := congrArg parseNumericVersion hsame
    rw [parseNumericVersion_planConfigVersion env hpos hv, parseNumericVersion_planConfigVersion env' hpos' hw] at hread
    exact hne hread

end

/-- The greatest version has 19 digits. -/
theorem itoa_round_trip_max : Canonical 9223372036854775807 (itoa 9223372036854775807) ∧
    (itoaDigits 20 (9223372036854775807 : Int).toNat []).isSome = true ∧
    parseNumericVersion ("dynamic-v" ++ itoa 9223372036854775807) = 9223372036854775807 ∧
    ∀ w, 0 < w → IsInt64 w → 9223372036854775807 ≠ w →
      ∀ env env', planConfigVersion env 9223372036854775807 ≠ planConfigVersion env' w :=
  itoa_round_trip (by decide) (by decide)

/-- Plans that the controller numbers in order come to the agent in order. -/
theorem increasing_of_numbered {cfgs : List NodeConfigResponse} {vs : List Int}
    (h : List.Forall₂ (fun cfg v => IsInt64 v ∧ ∃ env, cfg.configVersion = planConfigVersion env v) cfgs vs)
    (hvs : (0 :: vs).Pairwise (· < ·)) : Increasing cfgs := by
  have hpositive : ∀ v ∈ vs, 0 < v := (List.pairwise_cons.mp hvs).1
  have hread : cfgs.map (·.version) = vs := by
    clear hvs
    induction h with
    | nil => rfl
    | @cons cfg v cfgs vs hcfg _ ih =>
      obtain ⟨hv, env, htext⟩ := hcfg
      have hversion : cfg.version = v := by
        rw [NodeConfigResponse.version, htext]
        exact parseNumericVersion_planConfigVersion env (hpositive v List.mem_cons_self) hv
      rw [List.map_cons, hversion, ih fun w hw => hpositive w (List.mem_cons_of_mem v hw)]
  rw [Increasing, hread]
  exact hvs

end PeerWan
