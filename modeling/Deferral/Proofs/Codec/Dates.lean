import Deferral.Proofs.Codec.Texts
import Deferral.Proofs.Date.Written

/-!
# Dates come back to the millisecond

A date is written in universal time with three decimals of a second. So what is written for a date
that was read is the same for all spellings of one millisecond, and it decodes to the date without
what is below a millisecond. A date that has more decimals does not come back as it was.
-/

namespace Deferral.Codec

variable {text : String} {moment : Instant}

theorem decode_date_eq_success_iff :
    date.decode (.string text) = .success moment ↔ Timestamp.parse? text = some moment := by
  simp only [date]
  cases Timestamp.parse? text <;> simp

/-- A decoded date of a year with four digits comes back from its encoding, cut to whole
milliseconds. -/
theorem decode_encode_date (decoded : date.decode (.string text) = .success moment)
    (early : 0 ≤ moment.year) (late : moment.year ≤ 9999) :
    date.decode (date.encode moment) = .success moment.wholeMilliseconds :=
  decode_date_eq_success_iff.mpr (Timestamp.parse?_write
    (Timestamp.regular_of_parse? (decode_date_eq_success_iff.mp decoded)) early late)

theorem wholeMilliseconds_eq_iff {moment other : Instant} :
    moment.wholeMilliseconds = other.wholeMilliseconds ↔
      moment.seconds = other.seconds ∧
        moment.nanoseconds / 1000000 = other.nanoseconds / 1000000 := by
  simp only [Instant.wholeMilliseconds, Instant.mk.injEq]
  omega

theorem encode_wholeMilliseconds (moment : Instant) :
    date.encode moment.wholeMilliseconds = date.encode moment :=
  congrArg Json.string (Timestamp.write_wholeMilliseconds moment)

/-- Encoding a date that was decoded is a canonical form of it. -/
theorem dates_canonical :
    (∀ text moment, date.decode (.string text) = .success moment →
      0 ≤ moment.year → moment.year ≤ 9999 →
      ∃ written, date.encode moment = .string written ∧
        date.decode (.string written) = .success moment.wholeMilliseconds ∧
        (Timestamp.second ≤ moment.wholeMilliseconds.nanoseconds ↔
          Timestamp.second ≤ moment.nanoseconds) ∧
        date.encode moment.wholeMilliseconds = .string written ∧
        date.fromText (date.toText moment) = .success moment.wholeMilliseconds) ∧
    ∀ text other moment moment', date.decode (.string text) = .success moment →
      date.decode (.string other) = .success moment' →
      0 ≤ moment.year → moment.year ≤ 9999 → 0 ≤ moment'.year → moment'.year ≤ 9999 →
      (date.encode moment = date.encode moment' ↔ moment.seconds = moment'.seconds ∧
        moment.nanoseconds / 1000000 = moment'.nanoseconds / 1000000) := by
  constructor
  · intro text moment decoded early late
    have back := decode_encode_date decoded early late
    refine ⟨Timestamp.write moment, rfl, back, ?_, encode_wholeMilliseconds moment, ?_⟩
    · simp only [Instant.wholeMilliseconds, Timestamp.second]
      omega
    · exact (date.fromText_of_parse (Json.parse_writeText _)).trans back
  · intro text other moment moment' decoded decoded' early late early' late'
    rw [← wholeMilliseconds_eq_iff]
    constructor
    · intro same
      have back := decode_encode_date decoded early late
      rw [same, decode_encode_date decoded' early' late'] at back
      exact (Outcome.success.inj back).symm
    · intro same
      rw [← encode_wholeMilliseconds moment, same, encode_wholeMilliseconds]

/-- A leap second in two zones, with decimals that differ below the millisecond. -/
theorem leap_second_canonical :
    date.decode (.string "1991-01-01T01:59:60.9995+02:00") = .success ⟨662687999, 1999500000⟩ ∧
      date.decode (.string "1990-12-31T23:59:60.999Z") = .success ⟨662687999, 1999000000⟩ ∧
      date.encode ⟨662687999, 1999500000⟩ = date.encode ⟨662687999, 1999000000⟩ ∧
      date.fromText (date.toText ⟨662687999, 1999500000⟩) = .success ⟨662687999, 1999000000⟩ := by
  have decoded : date.decode (.string "1991-01-01T01:59:60.9995+02:00") =
      .success ⟨662687999, 1999500000⟩ := by decide +kernel
  have decoded' : date.decode (.string "1990-12-31T23:59:60.999Z") =
      .success ⟨662687999, 1999000000⟩ := by decide +kernel
  rcases dates_canonical.1 _ _ decoded (by decide) (by decide) with ⟨_, _, _, _, _, back⟩
  have same := dates_canonical.2 _ _ _ _ decoded decoded' (by decide) (by decide) (by decide)
    (by decide)
  exact ⟨decoded, decoded', same.mpr ⟨rfl, by decide⟩, back⟩

/-- Decimals beyond the third are lost, and so is a year that universal time moves out of the four
digits. -/
theorem dates_do_not_all_come_back :
    (date.decode (.string "2024-02-29T12:00:00.0005+02:00") = .success ⟨1709200800, 500000⟩ ∧
      date.decode (date.encode ⟨1709200800, 500000⟩) = .success ⟨1709200800, 0⟩) ∧
    (date.decode (.string "0000-01-01T00:00:00+00:01") = .success ⟨-62167219260, 0⟩ ∧
      date.decode (date.encode ⟨-62167219260, 0⟩) = .failure "not an iso date") ∧
    ¬ ∀ text moment, date.decode (.string text) = .success moment →
      date.decode (date.encode moment) = .success moment := by
  have fraction : date.decode (.string "2024-02-29T12:00:00.0005+02:00") =
      .success ⟨1709200800, 500000⟩ := by decide +kernel
  have cut : date.decode (date.encode ⟨1709200800, 500000⟩) = .success ⟨1709200800, 0⟩ := by
    decide +kernel
  refine ⟨⟨fraction, cut⟩, ⟨by decide +kernel, by decide +kernel⟩, fun all => ?_⟩
  have whole := (all _ _ fraction).symm.trans cut
  cases whole

/-- A date of a year with four digits comes back to the millisecond, so as it was just when it is of
whole milliseconds. -/
theorem dates_come_back (text : String) (moment : Instant)
    (decoded : date.decode (.string text) = .success moment)
    (early : 0 ≤ moment.year) (late : moment.year ≤ 9999) :
    date.decode (date.encode moment) = .success moment.wholeMilliseconds ∧
      (date.decode (date.encode moment) = .success moment ↔ moment.nanoseconds % 1000000 = 0) := by
  have back := decode_encode_date decoded early late
  refine ⟨back, ?_⟩
  rw [back, Outcome.success.injEq]
  rcases moment with ⟨seconds, nanoseconds⟩
  simp only [Instant.wholeMilliseconds, Instant.mk.injEq, true_and]
  omega

/-- A leap second with three decimals comes back as it was. -/
theorem leap_second_comes_back :
    date.decode (.string "1991-01-01T01:59:60.999+02:00") = .success ⟨662687999, 1999000000⟩ ∧
      date.decode (date.encode ⟨662687999, 1999000000⟩) = .success ⟨662687999, 1999000000⟩ := by
  have decoded : date.decode (.string "1991-01-01T01:59:60.999+02:00") =
      .success ⟨662687999, 1999000000⟩ := by decide +kernel
  exact ⟨decoded, (dates_come_back _ _ decoded (by decide) (by decide)).2.mpr (by decide)⟩

end Deferral.Codec
