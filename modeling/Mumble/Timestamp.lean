import Mumble.Lib.Calendar
import Mumble.Lib.Checked

/-!
The dates in the messages to the panel's operators (`iso8601_now`), from the seconds since
1970.
-/

namespace Mumble

open Mumble.Lib

-- `civil_from_days`, from its beginning to `doe`. Days are counted from a 1 March that begins
-- 400 years, `era`, and `doe` is the day in these years.
def eraAndDay (z : Int64) : Option (Int64 × UInt64) := do
  let era := (← (if 0 ≤ z then some z else subI64 z 146096 : Option Int64)) / 146097
  let doe := (← subI64 z (← mulI64 era 146097)).toUInt64
  return (era, doe)

-- `yoe`
def yearOfEra (doe : UInt64) : Option UInt64 := do
  return (← subU64 (← addU64 (← subU64 doe (doe / 1460)) (doe / 36524)) (doe / 146096)) / 365

-- `doy`
def dayOfYear (doe yoe : UInt64) : Option UInt64 := do
  subU64 doe (← subU64 (← addU64 (← mulU64 365 yoe) (yoe / 4)) (yoe / 100))

-- `m` and `d`
def monthAndDay (doy : UInt64) : Option (UInt32 × UInt32) := do
  let mp := (← addU64 (← mulU64 5 doy) 2) / 153
  let d := (← addU64 (← subU64 doy ((← addU64 (← mulU64 153 mp) 2) / 5)) 1).toUInt32
  let m := (← (if mp < 10 then addU64 mp 3 else subU64 mp 9 : Option UInt64)).toUInt32
  return (m, d)

-- The date `z` days after 1 January 1970, and nothing if some result on the way to it does
-- not fit into its type.
def civilFromDays (z : Int64) : Option (Int64 × UInt32 × UInt32) := do
  let z ← addI64 z 719468
  let (era, doe) ← eraAndDay z
  let yoe ← yearOfEra doe
  let y ← addI64 yoe.toInt64 (← mulI64 era 400)
  let doy ← dayOfYear doe yoe
  let (m, d) ← monthAndDay doy
  return (← (if m ≤ 2 then addI64 y 1 else some y : Option Int64), m, d)

-- The day that a time is on.
def epochDays (secs : UInt64) : Int64 := (secs / 86400).toInt64

-- `{:0width}`
def zeroPad (width : Nat) (x : Int) : String :=
  let digits := Nat.toDigits 10 x.natAbs
  if x < 0 then "-" ++ String.ofList (digits.leftpad (width - 1) '0')
  else String.ofList (digits.leftpad width '0')

def iso8601Now (secs : UInt64) : Option String := do
  let (y, m, d) ← civilFromDays (epochDays secs)
  let rem := secs % 86400
  return zeroPad 4 y.toInt ++ "-" ++ zeroPad 2 m.toNat ++ "-" ++ zeroPad 2 d.toNat ++ "T" ++
    zeroPad 2 (rem / 3600).toNat ++ ":" ++ zeroPad 2 (rem % 3600 / 60).toNat ++ ":" ++
    zeroPad 2 (rem % 60).toNat ++ "Z"

-- Division rounds to zero, and `z - 146096` makes up for that.
theorem tdiv_era (z : Int) : (if 0 ≤ z then z else z - 146096).tdiv 146097 = z / 146097 := by
  split_ifs with h
  · exact Int.tdiv_eq_ediv_of_nonneg h
  · have hsign : Int.sign 146097 = 1 := rfl
    rw [Int.tdiv_eq_ediv, hsign]
    omega

-- The day is in a century of 36524 days, there in four years of 1461 days, and there in a
-- year of 365 days. The last ones of each kind can have a day more or less.
theorem exists_cycles {doe : Nat} (h : doe < 146097) :
    ∃ c a b k : Nat, c ≤ 3 ∧ a ≤ 24 ∧ b ≤ 3 ∧ k ≤ 365 ∧ (k = 365 → b = 3 ∧ (a < 24 ∨ c = 3)) ∧
      doe = 36524 * c + 1461 * a + 365 * b + k := by
  obtain ⟨c, hc⟩ : ∃ c, c = min (doe / 36524) 3 := ⟨_, rfl⟩
  obtain ⟨b, hb⟩ : ∃ b, b = min ((doe - 36524 * c) % 1461 / 365) 3 := ⟨_, rfl⟩
  refine ⟨c, (doe - 36524 * c) / 1461, b, (doe - 36524 * c) % 1461 - 365 * b, ?_⟩
  omega

-- The four divisions find the year. That of 1460 is off by one towards the end of every
-- fourth year, but not by enough.
theorem yearOfEra_eq {c a b k doe : Nat} (hc : c ≤ 3) (ha : a ≤ 24) (hb : b ≤ 3) (hk : k ≤ 365)
    (hlast : k = 365 → b = 3 ∧ (a < 24 ∨ c = 3))
    (hdoe : doe = 36524 * c + 1461 * a + 365 * b + k) :
    (doe - doe / 1460 + doe / 36524 - doe / 146096) / 365 = 100 * c + 4 * a + b := by
  obtain ⟨e, he, hcase⟩ : ∃ e ≤ 1, doe / 1460 = 25 * c + a + e ∧
      (e = 1 → b = 3 ∧ 0 < k) ∧ (k = 365 → e = 1) :=
    ⟨(24 * c + a + 365 * b + k) / 1460, by omega, by omega, by omega, by omega⟩
  by_cases hend : c = 3 ∧ a = 24 ∧ k = 365
  · omega
  · have hcentury : doe / 36524 = c := by omega
    have hera : doe / 146096 = 0 := by omega
    rw [hcentury, hera]
    omega

theorem exists_yearOfEra {doe : Nat} (h : doe < 146097) :
    ∃ n k : Nat, n < 400 ∧ k < marchLength n ∧ doe = 365 * n + n / 4 - n / 100 + k ∧
      (doe - doe / 1460 + doe / 36524 - doe / 146096) / 365 = n := by
  obtain ⟨c, a, b, k, hc, ha, hb, hk, hlast, hdoe⟩ := exists_cycles h
  have hfour : (100 * c + 4 * a + b) / 4 = 25 * c + a := by omega
  have hcentury : (100 * c + 4 * a + b) / 100 = c := by omega
  refine ⟨100 * c + 4 * a + b, k, by omega, ?_, by omega, yearOfEra_eq hc ha hb hk hlast hdoe⟩
  by_cases hleap : k = 365
  · have hyes : IsLeap (((100 * c + 4 * a + b : Nat) : Int) + 1) := by
      unfold IsLeap
      omega
    rw [marchLength, if_pos hyes]
    omega
  · have hle := marchLength_le ((100 * c + 4 * a + b : Nat) : Int)
    omega

theorem eraAndDay_some (z : Int64) (hlo : -2 ^ 62 ≤ z.toInt) :
    ∃ era doe, eraAndDay z = some (era, doe) ∧ era.toInt = z.toInt / 146097 ∧
      (doe.toNat : Int) = z.toInt % 146097 := by
  have hlt := z.toInt_lt
  obtain ⟨x, hx, hxv⟩ : ∃ a, (if 0 ≤ z then some z else subI64 z 146096) = some a ∧
      a.toInt = if 0 ≤ z.toInt then z.toInt else z.toInt - 146096 := by
    have hsign : 0 ≤ z ↔ 0 ≤ z.toInt := Int64.le_iff_toInt_le
    simp only [hsign]
    split_ifs with hz
    · exact ⟨z, rfl, rfl⟩
    · have habove : -2 ^ 63 ≤ z.toInt - 146096 := by omega
      have hbelow : z.toInt - 146096 < 2 ^ 63 := by omega
      exact checkedI64_eq habove hbelow
  have hera : (x / 146097).toInt = z.toInt / 146097 := by
    rw [Int64.toInt_div_of_ne_right _ _ (by decide), hxv]
    exact tdiv_era z.toInt
  obtain ⟨days, hdays, hdaysv⟩ : ∃ a, mulI64 (x / 146097) 146097 = some a ∧
      a.toInt = z.toInt / 146097 * 146097 := by
    have habove : -2 ^ 63 ≤ z.toInt / 146097 * 146097 := by omega
    have hbelow : z.toInt / 146097 * 146097 < 2 ^ 63 := by omega
    rw [← hera] at habove hbelow ⊢
    exact checkedI64_eq habove hbelow
  obtain ⟨day, hday, hdayv⟩ : ∃ a, subI64 z days = some a ∧ a.toInt = z.toInt - days.toInt :=
    checkedI64_eq (by omega) (by omega)
  refine ⟨x / 146097, day.toUInt64, ?_, hera, ?_⟩
  · exact bind_of_eq_some hx (bind_of_eq_some hdays (bind_of_eq_some hday rfl))
  · have hnonneg : 0 ≤ day := Int64.le_iff_toInt_le.mpr (by change 0 ≤ day.toInt; omega)
    rw [Int64.toNat_toUInt64_of_le hnonneg, Int64.toNatClampNeg]
    omega

theorem yearOfEra_some (doe : UInt64) (h : doe.toNat < 146097) :
    ∃ yoe, ∃ k : Nat, yearOfEra doe = some yoe ∧ yoe.toNat < 400 ∧ k < marchLength yoe.toNat ∧
      doe.toNat = 365 * yoe.toNat + yoe.toNat / 4 - yoe.toNat / 100 + k := by
  obtain ⟨n, k, hn, hk, hdoe, hyear⟩ := exists_yearOfEra h
  have hfour : (doe / 1460).toNat = doe.toNat / 1460 := by
    simp only [UInt64.toNat_div, UInt64.reduceToNat]
  have hcentury : (doe / 36524).toNat = doe.toNat / 36524 := by
    simp only [UInt64.toNat_div, UInt64.reduceToNat]
  have hera : (doe / 146096).toNat = doe.toNat / 146096 := by
    simp only [UInt64.toNat_div, UInt64.reduceToNat]
  obtain ⟨a, ha, hav⟩ := @subU64_eq doe (doe / 1460) (by omega)
  obtain ⟨b, hb, hbv⟩ := @addU64_eq a (doe / 36524) (by omega)
  obtain ⟨c, hc, hcv⟩ := @subU64_eq b (doe / 146096) (by omega)
  rw [hbv, hav, hfour, hcentury, hera] at hcv
  have hquotient : (c / 365).toNat = n := by
    simp only [UInt64.toNat_div, UInt64.reduceToNat]
    rw [hcv, hyear]
  refine ⟨c / 365, k, ?_, ?_⟩
  · exact bind_of_eq_some ha (bind_of_eq_some hb (bind_of_eq_some hc rfl))
  · rw [hquotient]
    exact ⟨hn, hk, hdoe⟩

theorem dayOfYear_some {doe yoe : UInt64} {k : Nat} (hyoe : yoe.toNat < 400) (hk : k < 366)
    (hdoe : doe.toNat = 365 * yoe.toNat + yoe.toNat / 4 - yoe.toNat / 100 + k) :
    ∃ doy, dayOfYear doe yoe = some doy ∧ doy.toNat = k := by
  have hfour : (yoe / 4).toNat = yoe.toNat / 4 := by
    simp only [UInt64.toNat_div, UInt64.reduceToNat]
  have hcentury : (yoe / 100).toNat = yoe.toNat / 100 := by
    simp only [UInt64.toNat_div, UInt64.reduceToNat]
  have h365 : (365 : UInt64).toNat = 365 := rfl
  obtain ⟨a, ha, hav⟩ := @mulU64_eq 365 yoe (by rw [h365]; omega)
  rw [h365] at hav
  obtain ⟨b, hb, hbv⟩ := @addU64_eq a (yoe / 4) (by omega)
  obtain ⟨c, hc, hcv⟩ := @subU64_eq b (yoe / 100) (by omega)
  obtain ⟨doy, hdoy, hdoyv⟩ := @subU64_eq doe c (by omega)
  refine ⟨doy, ?_, by omega⟩
  exact bind_of_eq_some ha (bind_of_eq_some hb (bind_of_eq_some hc hdoy))

theorem monthAndDay_some (doy : UInt64) (h : doy.toNat < 366) :
    ∃ m d, monthAndDay doy = some (m, d) ∧ m.toNat = calendarMonth (marchMonth doy.toNat) ∧
      d.toNat = doy.toNat - monthStart (marchMonth doy.toNat) + 1 := by
  have h1 : (1 : UInt64).toNat = 1 := rfl
  have h2 : (2 : UInt64).toNat = 2 := rfl
  have h5 : (5 : UInt64).toNat = 5 := rfl
  have h153 : (153 : UInt64).toNat = 153 := rfl
  obtain ⟨a, ha, hav⟩ := @mulU64_eq 5 doy (by rw [h5]; omega)
  rw [h5] at hav
  obtain ⟨b, hb, hbv⟩ := @addU64_eq a 2 (by omega)
  have hmp : (b / 153).toNat = marchMonth doy.toNat := by
    rw [UInt64.toNat_div, h153, hbv, hav, h2]
    rfl
  generalize hquotient : b / 153 = mp at hmp
  have hmonth : mp.toNat < 12 := by
    unfold marchMonth at hmp
    omega
  obtain ⟨hstart, -⟩ := marchMonth_eq_iff.mp hmp.symm
  obtain ⟨c, hc, hcv⟩ := @mulU64_eq 153 mp (by rw [h153]; omega)
  rw [h153] at hcv
  obtain ⟨e, he, hev⟩ := @addU64_eq c 2 (by omega)
  have hbefore : (e / 5).toNat = monthStart mp.toNat := by
    rw [UInt64.toNat_div, h5, hev, hcv, h2]
    rfl
  obtain ⟨f, hf, hfv⟩ := @subU64_eq doy (e / 5) (by omega)
  obtain ⟨d, hd, hdv⟩ := @addU64_eq f 1 (by omega)
  obtain ⟨m, hm, hmv⟩ : ∃ m, (if mp < 10 then addU64 mp 3 else subU64 mp 9) = some m ∧
      m.toNat = calendarMonth mp.toNat := by
    have hten : mp < 10 ↔ mp.toNat < 10 := UInt64.lt_iff_toNat_lt
    have h3 : (3 : UInt64).toNat = 3 := rfl
    have h9 : (9 : UInt64).toNat = 9 := rfl
    simp only [hten, calendarMonth]
    split_ifs with hearly
    · rw [← h3]
      exact addU64_eq (by omega)
    · rw [← h9]
      exact subU64_eq (by omega)
  refine ⟨m.toUInt32, d.toUInt32, ?_, ?_, ?_⟩
  · subst hquotient
    exact bind_of_eq_some ha (bind_of_eq_some hb (bind_of_eq_some hc (bind_of_eq_some he
      (bind_of_eq_some hf (bind_of_eq_some hd (bind_of_eq_some hm rfl))))))
  · have hle : calendarMonth mp.toNat ≤ 12 := by
      unfold calendarMonth
      split_ifs <;> omega
    rw [← hmp, UInt64.toNat_toUInt32, hmv]
    omega
  · rw [← hmp, UInt64.toNat_toUInt32]
    omega

-- The result is the date.
def Shows (result : Option (Int64 × UInt32 × UInt32)) (date : Date) : Prop :=
  ∃ y m d, result = some (y, m, d) ∧ y.toInt = date.year ∧ m.toNat = date.month ∧
    d.toNat = date.day

theorem civilFromDays_march {z : Int64} (hlo : -2 ^ 62 ≤ z.toInt) (hhi : z.toInt ≤ 2 ^ 62 + 1) :
    ∃ y k, ∃ hk : k < marchLength y, marchStart y + k = z.toInt + 719468 ∧
      Shows (civilFromDays z) (.ofMarch y k hk) := by
  obtain ⟨z', hz', hz⟩ : ∃ a, addI64 z 719468 = some a ∧ a.toInt = z.toInt + 719468 :=
    checkedI64_eq (by change _ ≤ z.toInt + 719468; omega) (by change z.toInt + 719468 < _; omega)
  obtain ⟨era, doe, hera, herav, hdoe⟩ := eraAndDay_some z' (by omega)
  obtain ⟨yoe, k, hyoe, hyear, hk, hday⟩ := yearOfEra_some doe (by omega)
  have hlength := marchLength_le yoe.toNat
  obtain ⟨doy, hdoy, rfl⟩ := dayOfYear_some hyear (by omega) hday
  obtain ⟨m, d, hmd, hm, hd⟩ := monthAndDay_some doy (by omega)
  have hyoe64 : yoe.toInt64.toInt = yoe.toNat := BitVec.toInt_eq_toNat_of_lt (by
    change 2 * yoe.toNat < 2 ^ 64
    omega)
  obtain ⟨years, hyears, hyearsv⟩ : ∃ a, mulI64 era 400 = some a ∧ a.toInt = era.toInt * 400 :=
    checkedI64_eq (by change _ ≤ era.toInt * 400; omega) (by change era.toInt * 400 < _; omega)
  obtain ⟨y, hy, hyv⟩ : ∃ a, addI64 yoe.toInt64 years = some a ∧
      a.toInt = yoe.toInt64.toInt + years.toInt := checkedI64_eq (by omega) (by omega)
  have hyvalue : y.toInt = yoe.toNat + 400 * era.toInt := by omega
  obtain ⟨w, hw, hwv⟩ : ∃ a, (if m ≤ 2 then addI64 y 1 else some y) = some a ∧
      a.toInt = calendarYear y.toInt (marchMonth doy.toNat) := by
    have htwo : m ≤ 2 ↔ ¬marchMonth doy.toNat < 10 := by
      rw [UInt32.le_iff_toNat_le, hm, calendarMonth]
      change _ ≤ 2 ↔ _
      have hmonth := marchMonth_lt hk
      split_ifs <;> omega
    simp only [htwo, calendarYear]
    split_ifs with hearly
    · exact ⟨y, rfl, rfl⟩
    · exact checkedI64_eq (by change _ ≤ y.toInt + 1; omega) (by change y.toInt + 1 < _; omega)
  have hlengthy : doy.toNat < marchLength y.toInt := by
    rw [hyvalue, marchLength_add_era]
    exact hk
  refine ⟨y.toInt, doy.toNat, hlengthy, ?_, w, m, d, ?_, hwv, hm, hd⟩
  · have hstart : marchStart (yoe.toNat : Int) =
        365 * yoe.toNat + yoe.toNat / 4 - yoe.toNat / 100 := by
      unfold marchStart
      omega
    rw [hyvalue, marchStart_add_era, hstart]
    omega
  · exact bind_of_eq_some hz' (bind_of_eq_some hera (bind_of_eq_some hyoe (bind_of_eq_some hyears
      (bind_of_eq_some hy (bind_of_eq_some hdoy (bind_of_eq_some hmd (bind_of_eq_some hw rfl)))))))

theorem epochDays_range (secs : UInt64) :
    0 ≤ (epochDays secs).toInt ∧ (epochDays secs).toInt ≤ 2 ^ 62 := by
  have hlt := secs.toNat_lt
  have hdays : (secs / 86400).toNat = secs.toNat / 86400 := by
    simp only [UInt64.toNat_div, UInt64.reduceToNat]
  have hvalue : (epochDays secs).toInt = (secs / 86400).toNat := BitVec.toInt_eq_toNat_of_lt (by
    change 2 * (secs / 86400).toNat < 2 ^ 64
    omega)
  omega

-- The dates follow one another as those of the calendar do, from 1 January 1970 on in both
-- directions, and nothing overflows on the way to them. A time is on one of these days.
theorem civilFromDays_gregorian {z : Int64} (hlo : -2 ^ 62 ≤ z.toInt) (hhi : z.toInt ≤ 2 ^ 62) :
    (∃ date : Date, Shows (civilFromDays z) date ∧ Shows (civilFromDays (z + 1)) date.next) ∧
      civilFromDays 0 = some (1970, 1, 1) ∧
      ∀ secs, -2 ^ 62 ≤ (epochDays secs).toInt ∧ (epochDays secs).toInt ≤ 2 ^ 62 := by
  have hsucc : (z + 1).toInt = z.toInt + 1 := by
    rw [Int64.toInt_add]
    exact Int.bmod_eq_of_le (by change _ ≤ z.toInt + 1; omega) (by change z.toInt + 1 < _; omega)
  obtain ⟨y, k, hk, hday, hshows⟩ := civilFromDays_march hlo (by omega)
  obtain ⟨y', k', hk', hday', hshows'⟩ :=
    civilFromDays_march (z := z + 1) (by omega) (by omega)
  refine ⟨⟨.ofMarch y k hk, hshows, ?_⟩, by decide +kernel, fun secs => ?_⟩
  · rw [Date.next_ofMarch_of_succ hk hk' (by omega)]
    exact hshows'
  · have hrange := epochDays_range secs
    omega

-- From 29 February 2000 to the day after.
theorem civilFromDays_gregorian_leap :
    civilFromDays 11016 = some (2000, 2, 29) ∧
      ∃ date : Date, Shows (civilFromDays 11016) date ∧ Shows (civilFromDays (11016 + 1)) date.next :=
  ⟨by decide +kernel, (civilFromDays_gregorian (z := 11016) (by decide) (by decide)).1⟩

-- Every time has a text.
theorem iso8601Now_some (secs : UInt64) : ∃ text, iso8601Now secs = some text := by
  have hrange := epochDays_range secs
  obtain ⟨y, k, hk, -, w, m, d, hresult, -⟩ :=
    civilFromDays_march (z := epochDays secs) (by omega) (by omega)
  exact ⟨_, bind_of_eq_some hresult rfl⟩

example : iso8601Now 1783707042 = some "2026-07-10T18:10:42Z" := by decide +kernel

end Mumble
