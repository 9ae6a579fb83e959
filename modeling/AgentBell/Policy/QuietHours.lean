import AgentBell.Policy.Policy
import Mathlib.Algebra.Order.Ring.Int
import Mathlib.Data.Finset.Max
import Mathlib.Order.Bounds.Basic

/-!
# Quiet hours in a zone of constant offset

The windows of an interval are stated day by day: on each civil day whose weekday is listed, the
window runs from the start to the end of the interval, over midnight when the end is the earlier
time of day.  In a zone with a constant offset `QuietEvaluator.Evaluate` reports an instant to be
quiet when it lies in such a window, and defers to the latest end of the windows around it.  The
exception is a latest end that is the zero time, which the evaluator takes for no end.
-/

namespace AgentBell.Policy

open M2 (QuietHours QuietInterval clockParts isOneOf)
open RemoteConfig (within_eq_ok)

/-! ## Zones of constant offset -/

/-- One day. -/
def day : Duration := 1440 * minute

/-- The weekday of a civil day.  Day `0`, on which the zero time lies, is a Monday. -/
def weekdayOf (number : Int) : Fin 7 := Fin.ofNat 7 ((number + 1) % 7).toNat

/-- The instant of a time of day, in minutes, on a civil day. -/
def onDay (offset : Duration) (number : Int) (clock : Nat) : Time :=
  number * day + clock * minute - offset

/-- The civil day of an instant. -/
def dayOf (offset : Duration) (t : Time) : Int := (t + offset) / day

/-- A timezone with a constant offset from UTC. -/
def fixedZone (offset : Duration) : Location where
  clock t :=
    (((t + offset) % day / (60 * minute)).toNat, ((t + offset) % (60 * minute) / minute).toNat)
  weekday t := weekdayOf (dayOf offset t)
  addDays t days := t + days * day
  date t hour minutes := onDay offset (dayOf offset t) (hour * 60 + minutes)

/-! ## Windows -/

/-- A time of day, in minutes. -/
def clockOf (value : String) : Option Nat :=
  (clockParts value.toList).map fun parts => parts.1 * 60 + parts.2

/-- The windows of an interval: one for each civil day with one of its weekdays, into the next day
when the end is earlier than the start. -/
inductive IsWindow (offset : Duration) (interval : QuietInterval String) : Time → Time → Prop
  | sameDay {number : Int} {first last : Nat} (hfirst : clockOf interval.start = some first)
      (hlast : clockOf interval.stop = some last)
      (hday : containsWeekday interval.days (weekdayOf number) = true) (h : first < last) :
      IsWindow offset interval (onDay offset number first) (onDay offset number last)
  | overnight {number : Int} {first last : Nat} (hfirst : clockOf interval.start = some first)
      (hlast : clockOf interval.stop = some last)
      (hday : containsWeekday interval.days (weekdayOf number) = true) (h : last < first) :
      IsWindow offset interval (onDay offset number first) (onDay offset (number + 1) last)

/-- A window of the interval contains the instant and ends at `stop`. -/
def Covers (offset : Duration) (now : Time) (interval : QuietInterval String) (stop : Time) :
    Prop :=
  ∃ start, IsWindow offset interval start stop ∧ start ≤ now ∧ now < stop

/-- The ends of the windows that contain an instant. -/
def ends (offset : Duration) (now : Time) (intervals : List (QuietInterval String)) : Set Time :=
  {stop | ∃ interval ∈ intervals, Covers offset now interval stop}

/-- The clock of an interval that passed the check: two different times of day. -/
structure Clock (interval : QuietInterval String) where
  first : Nat × Nat
  last : Nat × Nat
  parsesFirst : parseTime interval.start = .ok first
  parsesLast : parseTime interval.stop = .ok last
  ofFirst : clockOf interval.start = some (first.1 * 60 + first.2)
  ofLast : clockOf interval.stop = some (last.1 * 60 + last.2)
  boundFirst : first.1 * 60 + first.2 < 1440
  boundLast : last.1 * 60 + last.2 < 1440
  differ : first.1 * 60 + first.2 ≠ last.1 * 60 + last.2

section Intervals

variable {offset : Duration} {now : Time} {interval : QuietInterval String} {value : String}
  {stop : Time}

/-- What the check of a time of day finds out. -/
lemma parseTime_of_validate (h : M2.validateClockTime value = .ok ()) :
    ∃ parts, parseTime value = .ok parts ∧ clockParts value.toList = some parts ∧
      parts.1 ≤ 23 ∧ parts.2 ≤ 59 := by
  simp only [M2.validateClockTime, Json.GoString.text_string] at h
  split at h
  · cases h
  · rename_i hour minutes hparts
    rw [failIf_eq_ok, not_or, Nat.not_lt, Nat.not_lt] at h
    refine ⟨(hour, minutes), ?_, hparts, h.1, h.2⟩
    simp only [parseTime, hparts]
    rw [if_neg]
    omega

/-- The value of a digit. -/
lemma digit_le {c : Char} (h : c.isDigit = true) : c.toNat - '0'.toNat ≤ 9 := by
  simp only [Char.isDigit, Bool.and_eq_true, decide_eq_true_eq, ge_iff_le] at h
  have hhigh := UInt32.le_iff_toNat_le.mp h.2
  have hnine : ('9' : Char).val.toNat = 57 := rfl
  have hzero : ('0' : Char).toNat = 48 := rfl
  have hval : c.toNat = c.val.toNat := rfl
  omega

/-- A digit is known by its value. -/
lemma digit_injective {c d : Char} (hc : c.isDigit = true) (hd : d.isDigit = true)
    (h : c.toNat - '0'.toNat = d.toNat - '0'.toNat) : c = d := by
  simp only [Char.isDigit, Bool.and_eq_true, decide_eq_true_eq, ge_iff_le] at hc hd
  have hclow := UInt32.le_iff_toNat_le.mp hc.1
  have hdlow := UInt32.le_iff_toNat_le.mp hd.1
  have hzero : ('0' : Char).toNat = ('0' : Char).val.toNat := rfl
  have hcval : c.toNat = c.val.toNat := rfl
  have hdval : d.toNat = d.val.toNat := rfl
  refine Char.ext (UInt32.toNat_inj.mp ?_)
  omega

/-- A text of the form `HH:MM` has four digits, which give its parts. -/
lemma clockParts_inv {chars : List Char} {parts : Nat × Nat} (h : clockParts chars = some parts) :
    ∃ h1 h2 m1 m2 : Char, chars = [h1, h2, ':', m1, m2] ∧
      (∀ c ∈ [h1, h2, m1, m2], c.isDigit = true) ∧
      parts = (10 * (h1.toNat - '0'.toNat) + (h2.toNat - '0'.toNat),
        10 * (m1.toNat - '0'.toNat) + (m2.toNat - '0'.toNat)) := by
  unfold clockParts at h
  split at h
  · rename_i h1 h2 m1 m2
    split at h
    · rename_i hdigits
      cases h
      exact ⟨h1, h2, m1, m2, rfl, List.all_eq_true.mp hdigits, rfl⟩
    · cases h
  · cases h

/-- Different texts of the form `HH:MM` have different parts. -/
lemma clockParts_injective {left right : List Char} {parts : Nat × Nat}
    (hleft : clockParts left = some parts) (hright : clockParts right = some parts) :
    left = right := by
  obtain ⟨h1, h2, m1, m2, rfl, hdigits, rfl⟩ := clockParts_inv hleft
  obtain ⟨k1, k2, n1, n2, rfl, hdigits', hparts⟩ := clockParts_inv hright
  simp only [List.mem_cons, List.not_mem_nil, or_false, forall_eq_or_imp, forall_eq] at hdigits
  simp only [List.mem_cons, List.not_mem_nil, or_false, forall_eq_or_imp, forall_eq] at hdigits'
  obtain ⟨hh1, hh2, hm1, hm2⟩ := hdigits
  obtain ⟨hk1, hk2, hn1, hn2⟩ := hdigits'
  obtain ⟨hhours, hminutes⟩ := Prod.mk.inj hparts
  have bh2 := digit_le hh2
  have bk2 := digit_le hk2
  have bm2 := digit_le hm2
  have bn2 := digit_le hn2
  rw [digit_injective hh1 hk1 (by omega), digit_injective hh2 hk2 (by omega),
    digit_injective hm1 hn1 (by omega), digit_injective hm2 hn2 (by omega)]

/-- The clock of an interval that passes the check. -/
lemma exists_clock (h : interval.validate = .ok ()) : Nonempty (Clock interval) := by
  simp only [QuietInterval.validate, bind_eq_ok, within_eq_ok, failIf_eq_ok] at h
  obtain ⟨_, -, _, -, _, hstart, _, hstop, hdiffer⟩ := h
  obtain ⟨first, hfirst, hfirstParts, hfirstHour, hfirstMinute⟩ := parseTime_of_validate hstart
  obtain ⟨last, hlast, hlastParts, hlastHour, hlastMinute⟩ := parseTime_of_validate hstop
  refine ⟨⟨first, last, hfirst, hlast, ?_, ?_, by omega, by omega, ?_⟩⟩
  · rw [clockOf, hfirstParts]
    rfl
  · rw [clockOf, hlastParts]
    rfl
  · intro hsame
    have hparts : first = last := Prod.ext (by omega) (by omega)
    subst hparts
    exact hdiffer (String.toList_inj.mp (clockParts_injective hfirstParts hlastParts))

/-! ## The window around an instant -/

/-- The minutes from the start of day `0` to an instant. -/
def minuteOf (offset : Duration) (now : Time) : Int := (now + offset) / minute

lemma onDay_le_iff {number : Int} {clock : Nat} :
    onDay offset number clock ≤ now ↔ number * 1440 + clock ≤ minuteOf offset now := by
  unfold onDay minuteOf day minute second
  constructor
  · intro h
    have h' : number * (1440 * (60 * 1000000000)) + clock * (60 * 1000000000) - offset ≤
      (now : Int) := h
    omega
  · intro h
    have h' : number * (1440 * (60 * 1000000000)) + clock * (60 * 1000000000) - offset ≤
      (now : Int) := by omega
    exact h'

lemma lt_onDay_iff {number : Int} {clock : Nat} :
    now < onDay offset number clock ↔ minuteOf offset now < number * 1440 + clock := by
  rw [← not_iff_not, not_lt, not_lt]
  exact onDay_le_iff

lemma dayOf_eq (offset : Duration) (now : Time) :
    dayOf offset now = minuteOf offset now / 1440 := by
  unfold dayOf minuteOf day
  rw [mul_comm, Int.ediv_ediv_of_nonneg (by decide)]

/-- The minutes of the clock in a zone of constant offset. -/
lemma fixedZone_clock (offset : Duration) (now : Time) :
    ((((fixedZone offset).clock now).1 * 60 + ((fixedZone offset).clock now).2 : Nat) : Int) =
      minuteOf offset now % 1440 := by
  simp only [fixedZone, minuteOf, day, minute, second]
  omega

lemma fixedZone_civilTime (offset : Duration) (now : Time) (days : Int) (hour minutes : Nat) :
    civilTime (fixedZone offset) now days hour minutes =
      onDay offset (dayOf offset now + days) (hour * 60 + minutes) := by
  have hday : dayOf offset (now + days * day) = dayOf offset now + days := by
    simp only [dayOf, day, minute, second]
    omega
  simp only [civilTime, fixedZone, hday]

lemma fixedZone_yesterday (offset : Duration) (now : Time) :
    (fixedZone offset).weekday ((fixedZone offset).addDays now (-1)) =
      weekdayOf (dayOf offset now - 1) := by
  have hday : dayOf offset (now + -1 * day) = dayOf offset now - 1 := by
    simp only [dayOf, day, minute, second]
    omega
  simp only [fixedZone, hday]

/-- The minute an interval starts at. -/
def Clock.opens (clock : Clock interval) : Nat := clock.first.1 * 60 + clock.first.2

/-- The minute an interval ends at. -/
def Clock.closes (clock : Clock interval) : Nat := clock.last.1 * 60 + clock.last.2

/-- The day on which the window of a day ends. -/
def Clock.lastDay (clock : Clock interval) (number : Int) : Int :=
  if clock.opens < clock.closes then number else number + 1

/-- An instant lies between the start and the end of the interval on a day. -/
def Clock.Within (clock : Clock interval) (offset : Duration) (now : Time) (number : Int) : Prop :=
  number * 1440 + clock.opens ≤ minuteOf offset now ∧
    minuteOf offset now < clock.lastDay number * 1440 + clock.closes

/-- A window around an instant is that of a listed day on which the instant lies in it. -/
lemma Clock.covers_iff (clock : Clock interval) : Covers offset now interval stop ↔ ∃ number : Int,
      containsWeekday interval.days (weekdayOf number) = true ∧ clock.Within offset now number ∧
      stop = onDay offset (clock.lastDay number) clock.closes := by
  constructor
  · rintro ⟨start, hwindow, hstart, hstop⟩
    cases hwindow with
    | @sameDay number _ _ hfirst hlast hday hlt =>
      cases Option.mem_unique hfirst clock.ofFirst
      cases Option.mem_unique hlast clock.ofLast
      have hlastDay : clock.lastDay number = number := if_pos hlt
      refine ⟨number, hday, ⟨onDay_le_iff.mp hstart, ?_⟩, ?_⟩
      · rw [hlastDay]
        exact lt_onDay_iff.mp hstop
      · rw [hlastDay]
        rfl
    | @overnight number _ _ hfirst hlast hday hlt =>
      cases Option.mem_unique hfirst clock.ofFirst
      cases Option.mem_unique hlast clock.ofLast
      have hlastDay : clock.lastDay number = number + 1 := if_neg (Nat.not_lt.mpr hlt.le)
      refine ⟨number, hday, ⟨onDay_le_iff.mp hstart, ?_⟩, ?_⟩
      · rw [hlastDay]
        exact lt_onDay_iff.mp hstop
      · rw [hlastDay]
        rfl
  · rintro ⟨number, hday, ⟨hstart, hstop⟩, rfl⟩
    refine ⟨onDay offset number clock.opens, ?_, onDay_le_iff.mpr hstart, lt_onDay_iff.mpr hstop⟩
    by_cases hlt : clock.opens < clock.closes
    · have hlastDay : clock.lastDay number = number := if_pos hlt
      rw [hlastDay]
      exact .sameDay clock.ofFirst clock.ofLast hday hlt
    · have hlastDay : clock.lastDay number = number + 1 := if_neg hlt
      rw [hlastDay]
      exact .overnight clock.ofFirst clock.ofLast hday
        (lt_of_le_of_ne (Nat.not_lt.mp hlt) (Ne.symm clock.differ))

/-- The window that is found around an instant, and that there is no other. -/
structure Found (offset : Duration) (now : Time) (interval : QuietInterval String)
    (found : Time × Time × Bool) : Prop where
  inside : found.2.2 = true → found.1 ≤ now ∧ now < found.2.1
  covers : ∀ stop, Covers offset now interval stop ↔ found.2.2 = true ∧ stop = found.2.1

/-- Nothing is found when the instant lies in the window of no listed day. -/
lemma Clock.found_none (clock : Clock interval)
    (h : ∀ number : Int, containsWeekday interval.days (weekdayOf number) = true →
      ¬ clock.Within offset now number) : Found offset now interval (0, 0, false) := by
  refine ⟨fun hactive => (nomatch hactive), fun stop => ⟨fun hcovers => ?_, fun hactive => ?_⟩⟩
  · obtain ⟨number, hday, hwithin, -⟩ := clock.covers_iff.mp hcovers
    exact (h number hday hwithin).elim
  · cases hactive.1

/-- The window of a listed day is found when the instant can lie in no other. -/
lemma Clock.found_some (clock : Clock interval) {number : Int}
    (hday : containsWeekday interval.days (weekdayOf number) = true)
    (honly : ∀ other : Int, clock.Within offset now other → other = number) :
    Found offset now interval (onDay offset number clock.opens,
      onDay offset (clock.lastDay number) clock.closes,
      decide (onDay offset number clock.opens ≤ now) &&
        decide (now < onDay offset (clock.lastDay number) clock.closes)) := by
  have hinside : (decide (onDay offset number clock.opens ≤ now) &&
      decide (now < onDay offset (clock.lastDay number) clock.closes)) = true ↔
        clock.Within offset now number := by
    rw [Bool.and_eq_true, decide_eq_true_eq, decide_eq_true_eq, onDay_le_iff, lt_onDay_iff]
    rfl
  refine ⟨fun hactive => ?_, fun other => ⟨fun hcovers => ?_, fun hactive => ?_⟩⟩
  · obtain ⟨hstart, hstop⟩ := hinside.mp hactive
    exact ⟨onDay_le_iff.mpr hstart, lt_onDay_iff.mpr hstop⟩
  · obtain ⟨otherNumber, -, hwithin, hother⟩ := clock.covers_iff.mp hcovers
    have hsame : otherNumber = number := honly otherNumber hwithin
    subst hsame
    exact ⟨hinside.mpr hwithin, hother⟩
  · exact clock.covers_iff.mpr ⟨number, hday, hinside.mp hactive.1, hactive.2⟩

/-- The window that `matchingWindow` finds is the one around the instant. -/
lemma Clock.matchingWindow (clock : Clock interval) (offset : Duration) (now : Time) :
    ∃ found, matchingWindow (fixedZone offset) now interval = .ok found ∧
      Found offset now interval found := by
  have hopens : clock.opens < 1440 := clock.boundFirst
  have hcloses : clock.closes < 1440 := clock.boundLast
  have hclock := fixedZone_clock offset now
  have hdayOf := dayOf_eq offset now
  have hweekday : (fixedZone offset).weekday now = weekdayOf (dayOf offset now) := rfl
  have hfirst : clock.first.1 * 60 + clock.first.2 = clock.opens := rfl
  have hlast : clock.last.1 * 60 + clock.last.2 = clock.closes := rfl
  unfold Policy.matchingWindow
  simp only [clock.parsesFirst, clock.parsesLast, fixedZone_civilTime, fixedZone_yesterday,
    hweekday, bind, Except.bind, hfirst, hlast]
  split
  · rename_i hlt
    have honly : ∀ other : Int, clock.Within offset now other → other = dayOf offset now := by
      rintro other ⟨hstart, hstop⟩
      rw [Clock.lastDay, if_pos hlt] at hstop
      omega
    split
    · rename_i hday
      refine ⟨_, rfl, ?_⟩
      have hfound := clock.found_some hday honly
      rw [Clock.lastDay, if_pos hlt] at hfound
      rw [add_zero]
      exact hfound
    · rename_i hday
      exact ⟨_, rfl, clock.found_none fun other hother hwithin =>
        hday (honly other hwithin ▸ hother)⟩
  · rename_i hge
    have hlastDay : ∀ number, clock.lastDay number = number + 1 := fun number => if_neg hge
    split
    · rename_i htoday
      refine ⟨_, rfl, ?_⟩
      have honly : ∀ other : Int, clock.Within offset now other → other = dayOf offset now := by
        rintro other ⟨hstart, hstop⟩
        rw [hlastDay] at hstop
        have hreached := htoday.1
        omega
      have hfound := clock.found_some htoday.2 honly
      rw [hlastDay] at hfound
      rw [add_zero]
      exact hfound
    · rename_i htoday
      split
      · rename_i hyesterday
        refine ⟨_, rfl, ?_⟩
        have honly : ∀ other : Int, clock.Within offset now other →
            other = dayOf offset now - 1 := by
          rintro other ⟨hstart, hstop⟩
          rw [hlastDay] at hstop
          have hbefore := hyesterday.1
          omega
        have hfound := clock.found_some hyesterday.2 honly
        rw [hlastDay, sub_add_cancel] at hfound
        rw [add_zero]
        exact hfound
      · rename_i hyesterday
        refine ⟨_, rfl, clock.found_none fun other hother hwithin => ?_⟩
        obtain ⟨hstart, hstop⟩ := hwithin
        rw [hlastDay] at hstop
        by_cases hsame : other = dayOf offset now
        · exact htoday ⟨by omega, hsame ▸ hother⟩
        · have hbefore : other = dayOf offset now - 1 := by omega
          exact hyesterday ⟨by omega, hbefore ▸ hother⟩

end Intervals

/-! ## The latest end -/

section Latest

variable {offset : Duration} {now latest stop : Time} {intervals : List (QuietInterval String)}
  {stops : List Time}

/-- The later of the end so far and another; the zero time is no end. -/
def later (latest stop : Time) : Time := if latest.isZero ∨ latest < stop then stop else latest

lemma later_eq_or (latest stop : Time) : later latest stop = stop ∨ later latest stop = latest := by
  unfold later
  split
  · exact .inl rfl
  · exact .inr rfl

lemma later_eq_zero_iff : later latest stop = 0 ↔ stop = 0 ∧ latest ≤ 0 := by
  unfold later Time.isZero
  split
  · rename_i h
    rw [decide_eq_true_eq] at h
    constructor
    · rintro rfl
      exact ⟨rfl, h.elim le_of_eq le_of_lt⟩
    · exact And.left
  · rename_i h
    rw [decide_eq_true_eq, not_or, not_lt] at h
    constructor
    · exact fun hzero => absurd hzero h.1
    · rintro ⟨rfl, hlatest⟩
      exact le_antisymm hlatest h.2

lemma later_le_zero_iff : later latest stop ≤ 0 ↔ latest ≤ 0 ∧ stop ≤ 0 := by
  unfold later Time.isZero
  split
  · rename_i h
    rw [decide_eq_true_eq] at h
    constructor
    · intro hstop
      exact ⟨h.elim le_of_eq fun hlt => hlt.le.trans hstop, hstop⟩
    · exact And.right
  · rename_i h
    rw [decide_eq_true_eq, not_or, not_lt] at h
    constructor
    · exact fun hlatest => ⟨hlatest, h.2.trans hlatest⟩
    · exact And.left

/-- The end that is kept is one of the ends, or none. -/
lemma foldl_later_mem (stops : List Time) :
    stops.foldl later 0 = 0 ∨ stops.foldl later 0 ∈ stops := by
  induction stops using List.reverseRecOn with
  | nil => exact .inl rfl
  | append_singleton stops stop ih =>
    rw [List.foldl_append, List.foldl_cons, List.foldl_nil]
    rcases later_eq_or (stops.foldl later 0) stop with h | h
    · rw [h]
      exact .inr (List.mem_append_right _ (List.mem_singleton_self _))
    · rw [h]
      exact ih.imp_right (List.mem_append_left _)

lemma foldl_later_le_zero_iff : stops.foldl later 0 ≤ 0 ↔ ∀ stop ∈ stops, stop ≤ 0 := by
  induction stops using List.reverseRecOn with
  | nil => exact ⟨fun _ stop h => (nomatch h), fun _ => le_refl _⟩
  | append_singleton stops last ih =>
    rw [List.foldl_append, List.foldl_cons, List.foldl_nil, later_le_zero_iff, ih,
      List.forall_mem_append, List.forall_mem_singleton]

/-- No end is kept when there is none, and when the last one is the zero time and none is later. -/
lemma foldl_later_eq_zero_iff : stops.foldl later 0 = 0 ↔
      stops = [] ∨ stops.getLast? = some 0 ∧ ∀ stop ∈ stops, stop ≤ 0 := by
  rcases List.eq_nil_or_concat' stops with rfl | ⟨front, last, rfl⟩
  · exact ⟨fun _ => .inl rfl, fun _ => rfl⟩
  · rw [List.foldl_append, List.foldl_cons, List.foldl_nil, later_eq_zero_iff,
      foldl_later_le_zero_iff, List.getLast?_concat, List.forall_mem_append,
      List.forall_mem_singleton, Option.some_inj]
    constructor
    · rintro ⟨rfl, hfront⟩
      exact .inr ⟨rfl, hfront, le_refl _⟩
    · rintro (h | ⟨hlast, hfront, -⟩)
      · exact absurd h (List.append_ne_nil_of_right_ne_nil _ (List.cons_ne_nil _ _))
      · exact ⟨hlast, hfront⟩

/-- The greatest end is kept, unless it is the zero time. -/
lemma foldl_later_eq (hgreatest : IsGreatest {stop | stop ∈ stops} stop) (hzero : stop ≠ 0) :
    stops.foldl later 0 = stop := by
  induction stops using List.reverseRecOn with
  | nil => exact (nomatch hgreatest.1)
  | append_singleton front last ih =>
    rw [List.foldl_append, List.foldl_cons, List.foldl_nil]
    by_cases hlast : last = stop
    · subst hlast
      have hkept : front.foldl later 0 = 0 ∨ front.foldl later 0 ≤ last :=
        (foldl_later_mem front).imp_right fun h => hgreatest.2 (List.mem_append_left _ h)
      unfold later Time.isZero
      split
      · rfl
      · rename_i h
        rw [decide_eq_true_eq, not_or, not_lt] at h
        exact le_antisymm (hkept.resolve_left h.1) h.2
    · have hfront : stop ∈ front :=
        (List.mem_append.mp hgreatest.1).resolve_right fun h =>
          hlast (List.mem_singleton.mp h).symm
      rw [ih ⟨hfront, fun other hother => hgreatest.2 (List.mem_append_left _ hother)⟩]
      have hle : last ≤ stop :=
        hgreatest.2 (List.mem_append_right _ (List.mem_singleton_self last))
      unfold later Time.isZero
      rw [if_neg]
      rw [decide_eq_true_eq, not_or, not_lt]
      exact ⟨hzero, hle⟩

/-- The end of the window around an instant, when there is one. -/
def activeEnd (location : Location) (now : Time) (interval : QuietInterval String) : Option Time :=
  match matchingWindow location now interval with
  | .ok (_, stop, true) => some stop
  | _ => none

lemma activeEnd_eq_some_iff {interval : QuietInterval String} (clock : Clock interval) :
    activeEnd (fixedZone offset) now interval = some stop ↔ Covers offset now interval stop := by
  obtain ⟨⟨start, last, active⟩, hwindow, hfound⟩ := clock.matchingWindow offset now
  rw [hfound.covers, activeEnd, hwindow]
  cases active with
  | true => exact ⟨fun h => ⟨rfl, (Option.some.inj h).symm⟩, fun h => congrArg some h.2.symm⟩
  | false => exact ⟨fun h => (nomatch h), fun h => (nomatch h.1)⟩

/-- The ends of the windows around an instant are gone through in order. -/
lemma latestEnd_eq (hclocks : ∀ interval ∈ intervals, Nonempty (Clock interval)) :
    latestEnd (fixedZone offset) now latest intervals =
      .ok ((intervals.filterMap (activeEnd (fixedZone offset) now)).foldl later latest) := by
  induction intervals generalizing latest with
  | nil => rfl
  | cons interval rest ih =>
    obtain ⟨clock⟩ := hclocks interval (List.mem_cons_self ..)
    have hrest : ∀ latest : Time, latestEnd (fixedZone offset) now latest rest =
        .ok ((rest.filterMap (activeEnd (fixedZone offset) now)).foldl later latest) :=
      fun latest => ih fun interval hinterval => hclocks interval (List.mem_cons_of_mem _ hinterval)
    obtain ⟨⟨start, stop, active⟩, hwindow, hfound⟩ := clock.matchingWindow offset now
    have hend : activeEnd (fixedZone offset) now interval = if active then some stop else none := by
      rw [activeEnd, hwindow]
      cases active <;> rfl
    simp only [latestEnd, hwindow, bind, Except.bind]
    cases active with
    | false =>
      rw [if_pos (.inl rfl), hrest, List.filterMap_cons_none hend]
    | true =>
      obtain ⟨hstart, hstop⟩ := hfound.inside rfl
      rw [if_neg (not_or.mpr ⟨Bool.noConfusion, not_or.mpr ⟨not_lt.mpr hstart, not_not.mpr hstop⟩⟩),
        List.filterMap_cons_some hend, List.foldl_cons, ← hrest]
      rw [show later latest stop = if latest.isZero ∨ latest < stop then stop else latest from rfl,
        apply_ite fun latest => latestEnd (fixedZone offset) now latest rest]

end Latest

/-! ## What is reported -/

/-- The notification passes although it is quiet: it is urgent, or its event is listed. -/
def Bypasses (urgentBypass : Option Bool) (quiet : QuietHours String)
    (notification : Notification) : Prop :=
  urgentBypass.getD true = true ∧ notification.priority = "urgent" ∨
    notification.event ∈ quiet.bypassEvents

/-- A decision that tells whether the instant lies in a window, and defers to the latest end of the
windows that contain it. -/
structure Reflects (offset : Duration) (urgentBypass : Option Bool) (now : Time)
    (quiet : QuietHours String) (notification : Notification) (decision : QuietDecision) :
    Prop where
  active : decision.active = true ↔ quiet.enabled = true ∧
    ¬ Bypasses urgentBypass quiet notification ∧ (ends offset now quiet.intervals).Nonempty
  deferred : decision.active = true → decision.action = "defer" →
    now < decision.deferUntil ∧ IsGreatest (ends offset now quiet.intervals) decision.deferUntil

/-- The latest end of the windows that contain an instant is the zero time, and no end is kept in
its place or the decision would have to name it. -/
structure EndsAtZero (offset : Duration) (now : Time) (quiet : QuietHours String) : Prop where
  greatest : IsGreatest (ends offset now quiet.intervals) 0
  unkept : quiet.action = "defer" ∨ ∃ before interval after,
    quiet.intervals = before ++ interval :: after ∧ Covers offset now interval 0 ∧
      ∀ other ∈ after, ∀ stop, ¬ Covers offset now other stop

section Reported

variable {zones : String → Option Location} {offset : Duration} {urgentBypass : Option Bool}
  {now stop : Time} {quiet : QuietHours String} {intervals : List (QuietInterval String)}
  {notification : Notification} {decision : QuietDecision}

/-- The intervals of quiet hours that pass the check have a clock. -/
lemma clocks_of_validateIntervals {index : Nat}
    (h : M2.validateIntervals index intervals = .ok ()) :
    ∀ interval ∈ intervals, Nonempty (Clock interval) := by
  induction intervals generalizing index with
  | nil => exact fun interval hinterval => (nomatch hinterval)
  | cons first rest ih =>
    simp only [M2.validateIntervals, bind_eq_ok, within_eq_ok] at h
    obtain ⟨_, hfirst, hrest⟩ := h
    intro interval hinterval
    rcases List.mem_cons.mp hinterval with rfl | hmem
    · exact exists_clock hfirst
    · exact ih hrest interval hmem

lemma mem_stops_iff (hclocks : ∀ interval ∈ intervals, Nonempty (Clock interval)) :
    stop ∈ intervals.filterMap (activeEnd (fixedZone offset) now) ↔
      stop ∈ ends offset now intervals := by
  rw [List.mem_filterMap]
  constructor
  · rintro ⟨interval, hinterval, hend⟩
    obtain ⟨clock⟩ := hclocks interval hinterval
    exact ⟨interval, hinterval, (activeEnd_eq_some_iff clock).mp hend⟩
  · rintro ⟨interval, hinterval, hcovers⟩
    obtain ⟨clock⟩ := hclocks interval hinterval
    exact ⟨interval, hinterval, (activeEnd_eq_some_iff clock).mpr hcovers⟩

/-- The last of the windows around an instant ends at `stop`. -/
lemma getLast_stops_iff (hclocks : ∀ interval ∈ intervals, Nonempty (Clock interval)) :
    (intervals.filterMap (activeEnd (fixedZone offset) now)).getLast? = some stop ↔
      ∃ before interval after, intervals = before ++ interval :: after ∧
        Covers offset now interval stop ∧
        ∀ other ∈ after, ∀ stop, ¬ Covers offset now other stop := by
  induction intervals using List.reverseRecOn with
  | nil =>
    refine ⟨fun h => (nomatch h), ?_⟩
    rintro ⟨before, interval, after, h, -⟩
    exact absurd h.symm (List.append_ne_nil_of_right_ne_nil _ (List.cons_ne_nil _ _))
  | append_singleton front last ih =>
    obtain ⟨clock⟩ := hclocks last (List.mem_append_right _ (List.mem_singleton_self last))
    have hfront : ∀ interval ∈ front, Nonempty (Clock interval) := fun interval hinterval =>
      hclocks interval (List.mem_append_left _ hinterval)
    rw [List.filterMap_append]
    cases hend : activeEnd (fixedZone offset) now last with
    | none =>
      have hnone : ∀ stop, ¬ Covers offset now last stop := fun stop hcovers => by
        rw [(activeEnd_eq_some_iff clock).mpr hcovers] at hend
        cases hend
      rw [List.filterMap_cons_none hend, List.filterMap_nil, List.append_nil, ih hfront]
      constructor
      · rintro ⟨before, interval, after, rfl, hcovers, hafter⟩
        refine ⟨before, interval, after ++ [last], by simp, hcovers, ?_⟩
        intro other hother
        rcases List.mem_append.mp hother with hother | hother
        · exact hafter other hother
        · rw [List.mem_singleton.mp hother]
          exact hnone
      · rintro ⟨before, interval, after, hsplit, hcovers, hafter⟩
        rcases List.eq_nil_or_concat' after with rfl | ⟨after, other, rfl⟩
        · obtain ⟨-, hlast⟩ := List.append_inj' hsplit rfl
          rw [List.singleton_inj.mp hlast] at hnone
          exact absurd hcovers (hnone stop)
        · rw [← List.cons_append, ← List.append_assoc] at hsplit
          obtain ⟨rfl, -⟩ := List.append_inj' hsplit rfl
          exact ⟨before, interval, after, rfl, hcovers, fun other hother =>
            hafter other (List.mem_append_left _ hother)⟩
    | some lastStop =>
      have hcovers := (activeEnd_eq_some_iff clock).mp hend
      rw [List.filterMap_cons_some hend, List.filterMap_nil, List.getLast?_concat]
      constructor
      · intro h
        cases h
        exact ⟨front, last, [], rfl, hcovers, fun other hother => (nomatch hother)⟩
      · rintro ⟨before, interval, after, hsplit, hinterval, hafter⟩
        rcases List.eq_nil_or_concat' after with rfl | ⟨after, other, rfl⟩
        · obtain ⟨-, hlast⟩ := List.append_inj' hsplit rfl
          rw [← List.singleton_inj.mp hlast] at hinterval
          rw [← (activeEnd_eq_some_iff clock).mpr hinterval, hend]
        · rw [← List.cons_append, ← List.append_assoc] at hsplit
          obtain ⟨-, hlast⟩ := List.append_inj' hsplit rfl
          rw [List.singleton_inj.mp hlast] at hcovers
          exact absurd hcovers (hafter other
            (List.mem_append_right _ (List.mem_singleton_self other)) lastStop)

/-- Windows that contain an instant have a latest end. -/
lemma exists_isGreatest_ends (hclocks : ∀ interval ∈ intervals, Nonempty (Clock interval))
    (hnonempty : (ends offset now intervals).Nonempty) :
    ∃ stop, IsGreatest (ends offset now intervals) stop := by
  have hends : ends offset now intervals =
      ↑(intervals.filterMap (activeEnd (fixedZone offset) now)).toFinset := by
    ext stop
    rw [List.coe_toFinset]
    exact (mem_stops_iff hclocks).symm
  rw [hends] at hnonempty ⊢
  exact ⟨_, Finset.isGreatest_max' _ (Finset.coe_nonempty.mp hnonempty)⟩

/-- An end is kept when the windows that contain an instant do not end at the zero time, and it is
the latest end then. -/
lemma kept_of_not_endsAtZero (hclocks : ∀ interval ∈ quiet.intervals, Nonempty (Clock interval))
    (hnonempty : (ends offset now quiet.intervals).Nonempty) (hzero : ¬ EndsAtZero offset now quiet)
    (hstop : (quiet.intervals.filterMap (activeEnd (fixedZone offset) now)).foldl later 0 = stop) :
    stop ≠ 0 ∧ (quiet.action = "defer" → IsGreatest (ends offset now quiet.intervals) stop) := by
  obtain ⟨greatest, hgreatest⟩ := exists_isGreatest_ends hclocks hnonempty
  have hstops : IsGreatest
      {stop | stop ∈ quiet.intervals.filterMap (activeEnd (fixedZone offset) now)} greatest := by
    refine ⟨(mem_stops_iff hclocks).mpr hgreatest.1, fun other hother => ?_⟩
    exact hgreatest.2 ((mem_stops_iff hclocks).mp hother)
  by_cases hsome : greatest = 0
  · subst hsome
    have hdrop : ¬ quiet.action = "defer" := fun hdefer => hzero ⟨hgreatest, .inl hdefer⟩
    refine ⟨?_, fun hdefer => absurd hdefer hdrop⟩
    rintro rfl
    rcases foldl_later_eq_zero_iff.mp hstop with hnil | ⟨hlast, -⟩
    · rw [hnil] at hstops
      exact (nomatch hstops.1)
    · exact hzero ⟨hgreatest, .inr ((getLast_stops_iff hclocks).mp hlast)⟩
  · rw [foldl_later_eq hstops hsome] at hstop
    subst hstop
    exact ⟨hsome, fun _ => hgreatest⟩

/-- No end is kept when the windows that contain an instant end at the zero time, or it is not the
latest one. -/
lemma not_kept_of_endsAtZero (hclocks : ∀ interval ∈ quiet.intervals, Nonempty (Clock interval))
    (hzero : EndsAtZero offset now quiet)
    (hstop : (quiet.intervals.filterMap (activeEnd (fixedZone offset) now)).foldl later 0 = stop) :
    stop = 0 ∨ quiet.action = "defer" ∧ ¬ IsGreatest (ends offset now quiet.intervals) stop := by
  by_cases hsome : stop = 0
  · exact .inl hsome
  · refine .inr ⟨hzero.unkept.resolve_right fun hlast => hsome ?_, fun hgreatest => hsome ?_⟩
    · rw [← hstop, foldl_later_eq_zero_iff]
      refine .inr ⟨(getLast_stops_iff hclocks).mpr hlast, fun other hother => ?_⟩
      exact hzero.greatest.2 ((mem_stops_iff hclocks).mp hother)
    · exact hgreatest.unique hzero.greatest

/-- The decision of quiet hours that hold a notification back or let it pass. -/
lemma quietWindow_reflects_iff (hclocks : ∀ interval ∈ quiet.intervals, Nonempty (Clock interval))
    (haction : quiet.action = "defer" ∨ quiet.action = "drop") (henabled : quiet.enabled = true)
    (hbypass : ¬ Bypasses urgentBypass quiet notification) :
    (∃ decision, quietWindow quiet (fixedZone offset) now = .ok decision ∧
      Reflects offset urgentBypass now quiet notification decision) ↔
        ¬ EndsAtZero offset now quiet := by
  have hlatest : latestEnd (fixedZone offset) now 0 quiet.intervals =
      .ok ((quiet.intervals.filterMap (activeEnd (fixedZone offset) now)).foldl later 0) :=
    latestEnd_eq hclocks
  generalize hstop :
    (quiet.intervals.filterMap (activeEnd (fixedZone offset) now)).foldl later 0 = stop at hlatest
  have hlater : stop = 0 ∨ now < stop := latestEnd_later (.inl rfl) hlatest
  have hmem : stop = 0 ∨ stop ∈ ends offset now quiet.intervals := by
    rw [← mem_stops_iff hclocks, ← hstop]
    exact foldl_later_mem _
  simp only [quietWindow, hlatest, bind, Except.bind, Time.isZero, decide_eq_true_eq]
  by_cases hsome : stop = 0
  · rw [if_pos hsome]
    constructor
    · rintro ⟨decision, ⟨⟩, hreflects⟩ hzero
      exact absurd (hreflects.active.mpr ⟨henabled, hbypass, 0, hzero.greatest.1⟩) Bool.noConfusion
    · intro hzero
      refine ⟨_, rfl, ⟨fun h => Bool.noConfusion h, fun h => ?_⟩, fun h => Bool.noConfusion h⟩
      exact absurd hsome (kept_of_not_endsAtZero hclocks h.2.2 hzero hstop).1
  · have hnonempty : (ends offset now quiet.intervals).Nonempty := ⟨stop, hmem.resolve_left hsome⟩
    rw [if_neg hsome]
    rcases haction with hdefer | hdrop
    · rw [if_pos hdefer]
      constructor
      · rintro ⟨decision, ⟨⟩, hreflects⟩ hzero
        rcases not_kept_of_endsAtZero hclocks hzero hstop with h | ⟨-, h⟩
        · exact hsome h
        · exact h (hreflects.deferred rfl hdefer).2
      · intro hzero
        refine ⟨_, rfl, ⟨fun _ => ⟨henabled, hbypass, hnonempty⟩, fun _ => rfl⟩, fun _ _ => ?_⟩
        exact ⟨hlater.resolve_left hsome,
          (kept_of_not_endsAtZero hclocks hnonempty hzero hstop).2 hdefer⟩
    · have hnot : ¬ quiet.action = "defer" := by
        rw [hdrop]
        decide
      rw [if_neg hnot, if_pos hdrop]
      constructor
      · rintro - hzero
        rcases not_kept_of_endsAtZero hclocks hzero hstop with h | ⟨hdefer, -⟩
        · exact hsome h
        · exact hnot hdefer
      · intro hzero
        exact ⟨_, rfl, ⟨fun _ => ⟨henabled, hbypass, hnonempty⟩, fun _ => rfl⟩,
          fun _ hdefer => absurd hdefer hnot⟩

/-- What the check of enabled quiet hours finds out. -/
lemma enabled_of_validate (h : quiet.validate (hasZone zones) = .ok ())
    (henabled : quiet.enabled = true) :
    (zones quiet.timezone).isSome = true ∧ (quiet.action = "defer" ∨ quiet.action = "drop") ∧
      ∀ interval ∈ quiet.intervals, Nonempty (Clock interval) := by
  unfold QuietHours.validate at h
  rw [if_neg (by rw [henabled]; exact Bool.noConfusion)] at h
  simp only [M2.validateTimezone, bind_eq_ok, failIf_eq_ok] at h
  obtain ⟨_, ⟨_, -, _, -, hzone⟩, _, haction, _, -, _, hintervals, -⟩ := h
  refine ⟨not_not.mp hzone, or_iff_not_imp_left.mpr fun hdefer => ?_,
    clocks_of_validateIntervals hintervals⟩
  simpa [isOneOf, hdefer] using haction

/-- Quiet hours are reported as the windows say, unless the latest end of the windows that contain
the instant is the zero time. -/
theorem quietEvaluate_reflects_iff (hquiet : quiet.validate (hasZone zones) = .ok ())
    (hnotification : notification.validate = .ok ())
    (hzone : ∀ location, zones quiet.timezone = some location → location = fixedZone offset) :
    (∃ decision, quietEvaluate zones urgentBypass now quiet notification = .ok decision ∧
      Reflects offset urgentBypass now quiet notification decision) ↔
        ¬ (quiet.enabled = true ∧ ¬ Bypasses urgentBypass quiet notification ∧
          EndsAtZero offset now quiet) := by
  simp only [quietEvaluate, within_eq_ok.mpr hquiet, within_eq_ok.mpr hnotification, bind,
    Except.bind]
  by_cases henabled : quiet.enabled = true
  · rw [if_neg (by rw [henabled]; exact Bool.noConfusion)]
    by_cases hbypass : Bypasses urgentBypass quiet notification
    · have hpassed : ∀ reason : String,
          Reflects offset urgentBypass now quiet notification { reason := reason } := fun reason =>
        ⟨⟨fun h => Bool.noConfusion h, fun h => absurd hbypass h.2.1⟩,
          fun h => Bool.noConfusion h⟩
      refine iff_of_true ?_ fun h => h.2.1 hbypass
      split
      · exact ⟨_, rfl, hpassed _⟩
      · rename_i hurgent
        rw [if_pos (List.contains_iff_mem.mpr (hbypass.resolve_left hurgent))]
        exact ⟨_, rfl, hpassed _⟩
    · obtain ⟨hlocation, haction, hclocks⟩ := enabled_of_validate hquiet henabled
      obtain ⟨location, hlocation⟩ := Option.isSome_iff_exists.mp hlocation
      rw [if_neg fun h => hbypass (.inl h),
        if_neg fun h => hbypass (.inr (List.contains_iff_mem.mp h)), hlocation]
      rw [hzone location hlocation, quietWindow_reflects_iff hclocks haction henabled hbypass]
      exact not_congr ⟨fun h => ⟨henabled, hbypass, h⟩, fun h => h.2.2⟩
  · refine iff_of_true ?_ fun h => henabled h.1
    rw [if_pos (Bool.eq_false_iff.mpr henabled)]
    exact ⟨_, rfl, ⟨fun h => Bool.noConfusion h, fun h => absurd h.1 henabled⟩,
      fun h => Bool.noConfusion h⟩

end Reported

/-- UTC as the only timezone. -/
def onlyUTC (name : String) : Option Location := if name = "UTC" then some (fixedZone 0) else none

/-- Quiet hours of a Sunday night. -/
def sundayNight (stop : String) : QuietHours String :=
  ⟨true, "UTC", "defer", [⟨["sun"], "23:00", stop⟩], []⟩

/-- A notification. -/
def quietNotification : Notification :=
  { version := "1", source := "codex", surface := "cli", runtime := "host",
    event := "task.completed", status := "completed", occurredAt := 1, idempotencyKey := "key",
    priority := "normal", privacyLevel := "metadata-only" }

/-- Half an hour before the zero time a Sunday night that ends at it is not reported to be quiet. -/
theorem night_before_zero_unseen :
    quietEvaluate onlyUTC none (-30 * minute) (sundayNight "00:00") quietNotification =
        .ok { reason := "not-quiet" } ∧
      Covers 0 (-30 * minute) ⟨["sun"], "23:00", "00:00"⟩ 0 := by
  have hwindow : IsWindow 0 ⟨["sun"], "23:00", "00:00"⟩ (onDay 0 (-1) 1380) (onDay 0 (-1 + 1) 0) :=
    .overnight (by decide +kernel) (by decide +kernel) (by decide +kernel) (by decide)
  have hstop : onDay 0 (-1 + 1) 0 = 0 := by decide
  rw [hstop] at hwindow
  exact ⟨by decide +kernel, _, hwindow, by decide, by decide⟩

/-- Half an hour after the zero time, on a Monday, a Sunday night that lasts until one o'clock is
reported, and the notification is deferred to its end. -/
theorem sunday_night_reflected :
    ∃ decision, quietEvaluate onlyUTC none (30 * minute) (sundayNight "01:00") quietNotification =
        .ok decision ∧
      Reflects 0 none (30 * minute) (sundayNight "01:00") quietNotification decision := by
  refine (quietEvaluate_reflects_iff (by decide +kernel) (by decide +kernel) ?_).mpr ?_
  · intro location h
    exact (Option.some.inj h).symm
  · rintro ⟨-, -, hzero⟩
    obtain ⟨interval, -, start, -, -, hlt⟩ := hzero.greatest.1
    exact absurd hlt (by decide)

end AgentBell.Policy
