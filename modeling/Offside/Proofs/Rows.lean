import Mathlib.Algebra.GroupWithZero.Nat
import Mathlib.Data.List.Forall2
import Offside.Proofs.Numbering

set_option autoImplicit false

namespace Offside

section

variable {First Second : Type} {related : First → Second → Prop} {firsts : List First} {seconds : List Second}

theorem partner_at (paired : List.Forall₂ related firsts seconds) (place : Nat) (first : First)
    (found : firsts[place]? = some first) : ∃ second, seconds[place]? = some second ∧ related first second := by
  induction paired generalizing place with
  | nil => cases found
  | @cons _ second _ _ here _ ih =>
      cases place with
      | zero =>
          cases found
          exact ⟨second, rfl, here⟩
      | succ place => exact ih place found

theorem partner (paired : List.Forall₂ related firsts seconds) (first : First) (member : first ∈ firsts) :
    ∃ second ∈ seconds, related first second := by
  obtain ⟨place, found⟩ := List.getElem?_of_mem member
  obtain ⟨second, reached, same⟩ := partner_at paired place first found
  exact ⟨second, List.mem_of_getElem? reached, same⟩

end

namespace Row

theorem cut_length (text : List Char) : (cut text).length = text.count '\n' + 1 := by
  induction text with
  | nil => rfl
  | cons c rest ih =>
      by_cases feed : c = '\n'
      · simp [cut, feed, ih]
      · rw [cut, if_neg feed, List.count_cons_of_ne feed, ← ih]
        cases rows : cut rest with
        | nil => exact absurd rows (cut_ne_nil rest)
        | cons row more => rfl

theorem cut_append (front back : List Char) : cut (front ++ '\n' :: back) = cut front ++ cut back := by
  induction front with
  | nil => simp [cut]
  | cons c rest ih =>
      by_cases feed : c = '\n'
      · simp [cut, feed, ih]
      · simp only [List.cons_append, cut, if_neg feed, ih]
        cases rows : cut rest with
        | nil => exact absurd rows (cut_ne_nil rest)
        | cons row more => rfl

theorem cut_one_row (row : List Char) (oneRow : '\n' ∉ row) : cut row = [row] := by
  induction row with
  | nil => rfl
  | cons c rest ih =>
      rw [List.mem_cons, not_or] at oneRow
      obtain ⟨notFeed, restOneRow⟩ := oneRow
      rw [cut, if_neg (Ne.symm notFeed), ih restOneRow]

theorem cut_intercalate (rows : List (List Char)) (nonempty : rows ≠ []) (oneRow : ∀ row ∈ rows, '\n' ∉ row) :
    cut (['\n'].intercalate rows) = rows := by
  induction rows with
  | nil => exact absurd rfl nonempty
  | cons row more ih =>
      obtain ⟨first, others⟩ := List.forall_mem_cons.mp oneRow
      cases more with
      | nil =>
          rw [List.intercalate_singleton]
          exact cut_one_row row first
      | cons next rest =>
          rw [List.intercalate_cons_cons, List.append_assoc, List.singleton_append, cut_append, cut_one_row row first,
            ih (List.cons_ne_nil next rest) others]
          rfl

theorem one_row_cut (text : List Char) : ∀ row ∈ cut text, '\n' ∉ row := by
  induction text with
  | nil => simp [cut]
  | cons c rest ih =>
      by_cases feed : c = '\n'
      · rw [cut, if_pos feed]
        exact List.forall_mem_cons.mpr ⟨List.not_mem_nil, ih⟩
      · rw [cut, if_neg feed]
        cases rows : cut rest with
        | nil => simp [Ne.symm feed]
        | cons row more =>
            rw [rows] at ih
            obtain ⟨first, others⟩ := List.forall_mem_cons.mp ih
            exact List.forall_mem_cons.mpr ⟨by simp [Ne.symm feed, first], others⟩

end Row

namespace Line

theorem of_row_renumber (number : Nat → Nat) (place : Nat) (row : List Char) :
    ofRow (number place) row =
      ((ofRow place row).map (Option.map (Line.renumber number))).mapError (Error.renumber number) := by
  by_cases void : Row.isVoid (Row.dropReturn row)
  · simp [ofRow, void, Except.map, Except.mapError]
  · simp only [ofRow, void, if_false, Bool.false_eq_true]
    cases symbolsOfWords (Run.words (Row.dropReturn row)) <;> rfl

theorem symbols_of_words (words : List (List Char)) (symbols : List Symbol) :
    symbolsOfWords words = .ok symbols ↔ List.Forall₂ (fun word symbol => Symbol.ofWord word = .ok symbol) words symbols := by
  rw [symbolsOfWords]
  induction words generalizing symbols with
  | nil =>
      rw [List.mapM_nil, List.forall₂_nil_left_iff]
      constructor
      · intro same
        cases same
        rfl
      · rintro rfl
        rfl
  | cons word more ih =>
      rw [List.mapM_cons, List.forall₂_cons_left_iff]
      cases Symbol.ofWord word with
      | error cause => exact iff_of_false nofun nofun
      | ok first =>
          cases read : more.mapM Symbol.ofWord with
          | error cause =>
              refine iff_of_false nofun ?_
              rintro ⟨symbol, others, _, rest, _⟩
              rw [← ih, read] at rest
              cases rest
          | ok others =>
              constructor
              · intro same
                cases same
                exact ⟨first, others, rfl, (ih others).mp read, rfl⟩
              · rintro ⟨symbol, rest, same, further, rfl⟩
                rw [← ih, read] at further
                cases same
                cases further
                rfl

theorem symbols_of_words_failed (words : List (List Char)) (cause : WordError)
    (failed : symbolsOfWords words = .error cause) : ∃ word ∈ words, Symbol.ofWord word = .error cause := by
  rw [symbolsOfWords] at failed
  induction words with
  | nil => cases failed
  | cons word more ih =>
      rw [List.mapM_cons] at failed
      cases first : Symbol.ofWord word with
      | error blamed =>
          rw [first] at failed
          cases failed
          exact ⟨word, List.mem_cons_self, first⟩
      | ok symbol =>
          rw [first] at failed
          cases rest : more.mapM Symbol.ofWord with
          | error blamed =>
              rw [rest] at failed
              cases failed
              obtain ⟨later, member, unread⟩ := ih rest
              exact ⟨later, List.mem_cons_of_mem word member, unread⟩
          | ok symbols =>
              rw [rest] at failed
              cases failed

theorem of_row_ok (number : Nat) (row : List Char) (line : Line) (read : ofRow number row = .ok (some line)) :
    Row.isVoid (Row.dropReturn row) = false ∧
      ∃ symbols, line = ⟨number, .indent (Row.indent (Row.dropReturn row)) :: symbols⟩ ∧
        symbolsOfWords (Run.words (Row.dropReturn row)) = .ok symbols := by
  rw [ofRow] at read
  split at read
  · cases read
  · next shown =>
      split at read
      · next symbols found =>
          cases read
          exact ⟨by simpa using shown, symbols, rfl, found⟩
      · cases read

theorem of_row_shown (number : Nat) (row : List Char) (found : Option Line) (read : ofRow number row = .ok found)
    (shown : Row.isVoid (Row.dropReturn row) = false) : found ≠ none := by
  rintro rfl
  rw [ofRow, shown, if_neg Bool.false_ne_true] at read
  split at read <;> cases read

theorem of_row_failed (number : Nat) (row : List Char) (failure : Error) (failed : ofRow number row = .error failure) :
    ∃ cause, failure = .word number cause ∧ Row.isVoid (Row.dropReturn row) = false ∧
      ∃ word ∈ Run.words (Row.dropReturn row), Symbol.ofWord word = .error cause := by
  rw [ofRow] at failed
  split at failed
  · cases failed
  · next shown =>
      split at failed
      · cases failed
      · next cause unread =>
          cases failed
          exact ⟨cause, rfl, by simpa using shown, symbols_of_words_failed _ cause unread⟩

theorem of_rows_cons_ok (number : Nat) (row : List Char) (more : List (List Char)) (lines : List Line)
    (read : ofRows number (row :: more) = .ok lines) :
    ∃ line others, ofRow number row = .ok line ∧ ofRows (number + 1) more = .ok others ∧ lines = line.toList ++ others := by
  rw [ofRows] at read
  cases first : ofRow number row with
  | error failure =>
      rw [first] at read
      cases read
  | ok line =>
      cases rest : ofRows (number + 1) more with
      | error failure =>
          rw [first, rest] at read
          cases read
      | ok others =>
          rw [first, rest] at read
          cases read
          exact ⟨line, others, rfl, rfl, rfl⟩

theorem of_rows_line (number : Nat) (rows : List (List Char)) (lines : List Line) (read : ofRows number rows = .ok lines)
    (line : Line) (member : line ∈ lines) :
    ∃ place row, rows[place]? = some row ∧ ofRow (number + place) row = .ok (some line) := by
  induction rows generalizing number lines with
  | nil =>
      cases read
      cases member
  | cons row more ih =>
      obtain ⟨first, others, here, rest, rfl⟩ := of_rows_cons_ok number row more lines read
      rcases List.mem_append.mp member with same | later
      · rw [Option.mem_toList] at same
        exact ⟨0, row, rfl, by rw [Nat.add_zero, here, same]⟩
      · obtain ⟨place, found, reached, below⟩ := ih (number + 1) others rest later
        exact ⟨place + 1, found, reached, by rw [← below, Nat.add_assoc, Nat.add_comm 1]⟩

theorem of_rows_row (number : Nat) (rows : List (List Char)) (lines : List Line) (read : ofRows number rows = .ok lines)
    (place : Nat) (row : List Char) (found : rows[place]? = some row) :
    ∃ line, ofRow (number + place) row = .ok line ∧ ∀ held ∈ line, held ∈ lines := by
  induction rows generalizing number lines place with
  | nil => cases found
  | cons first more ih =>
      obtain ⟨line, others, here, rest, rfl⟩ := of_rows_cons_ok number first more lines read
      cases place with
      | zero =>
          cases found
          exact ⟨line, here, fun held present => List.mem_append_left _ (Option.mem_toList.mpr present)⟩
      | succ place =>
          obtain ⟨later, below, kept⟩ := ih (number + 1) others rest place found
          refine ⟨later, by rw [← below, Nat.add_assoc, Nat.add_comm 1], fun held present => ?_⟩
          exact List.mem_append_right _ (kept held present)

theorem of_rows_failed (number : Nat) (rows : List (List Char)) (failure : Error)
    (failed : ofRows number rows = .error failure) :
    ∃ place row, rows[place]? = some row ∧ ofRow (number + place) row = .error failure ∧
      ∀ earlier other, earlier < place → rows[earlier]? = some other → ∃ line, ofRow (number + earlier) other = .ok line := by
  induction rows generalizing number with
  | nil => cases failed
  | cons row more ih =>
      rw [ofRows] at failed
      cases here : ofRow number row with
      | error cause =>
          rw [here] at failed
          cases failed
          exact ⟨0, row, rfl, here, fun earlier _ before => absurd before (Nat.not_lt_zero earlier)⟩
      | ok line =>
          cases rest : ofRows (number + 1) more with
          | ok others =>
              rw [here, rest] at failed
              cases failed
          | error cause =>
              rw [here, rest] at failed
              cases failed
              obtain ⟨place, found, reached, below, above⟩ := ih (number + 1) rest
              refine ⟨place + 1, found, reached, by rw [← below, Nat.add_assoc, Nat.add_comm 1], ?_⟩
              intro earlier other before present
              cases earlier with
              | zero =>
                  cases present
                  exact ⟨line, here⟩
              | succ earlier =>
                  obtain ⟨read, fine⟩ := above earlier other (Nat.lt_of_succ_lt_succ before) present
                  exact ⟨read, by rw [← fine, Nat.add_assoc, Nat.add_comm 1]⟩

def followedBy (front back : Except Error (List Line)) : Except Error (List Line) :=
  front.bind fun lines => back.map fun more => lines ++ more

theorem of_rows_cons (place : Nat) (row : List Char) (more : List (List Char)) :
    ofRows place (row :: more) = followedBy ((ofRow place row).map Option.toList) (ofRows (place + 1) more) := by
  rw [ofRows]
  cases ofRow place row with
  | error failure => rfl
  | ok line => cases ofRows (place + 1) more <;> rfl

theorem followed_by_assoc (front middle back : Except Error (List Line)) :
    followedBy (followedBy front middle) back = followedBy front (followedBy middle back) := by
  cases front with
  | error failure => rfl
  | ok lines =>
      cases middle with
      | error failure => rfl
      | ok more => cases back <;> simp [followedBy, Except.bind, Except.map]

theorem of_rows_append (place : Nat) (front back : List (List Char)) :
    ofRows place (front ++ back) = followedBy (ofRows place front) (ofRows (place + front.length) back) := by
  induction front generalizing place with
  | nil =>
      simp only [ofRows, List.nil_append, List.length_nil, Nat.add_zero]
      cases ofRows place back <;> rfl
  | cons row more ih =>
      rw [List.cons_append, of_rows_cons, ih, of_rows_cons, followed_by_assoc, List.length_cons, Nat.add_assoc,
        Nat.add_comm 1]

def renumberRead (number : Nat → Nat) (read : Except Error (List Line)) : Except Error (List Line) :=
  (read.map (List.map (Line.renumber number))).mapError (Error.renumber number)

theorem map_followed_by (line : Line → Line) (failure : Error → Error) (front back : Except Error (List Line)) :
    ((followedBy front back).map (List.map line)).mapError failure =
      followedBy ((front.map (List.map line)).mapError failure) ((back.map (List.map line)).mapError failure) := by
  cases front with
  | error cause => rfl
  | ok lines => cases back <;> simp [followedBy, Except.bind, Except.map, Except.mapError]

theorem map_to_list (line : Line → Line) (failure : Error → Error) (read : Except Error (Option Line)) :
    ((read.map (Option.map line)).mapError failure).map Option.toList =
      ((read.map Option.toList).map (List.map line)).mapError failure := by
  cases read with
  | error cause => rfl
  | ok found => cases found <;> rfl

theorem renumber_followed_by (number : Nat → Nat) (front back : Except Error (List Line)) :
    renumberRead number (followedBy front back) = followedBy (renumberRead number front) (renumberRead number back) :=
  map_followed_by (Line.renumber number) (Error.renumber number) front back

theorem renumber_read_same (read : Except Error (List Line)) : renumberRead (fun line => line) read = read := by
  cases read with
  | ok lines => exact congrArg Except.ok (List.map_id lines)
  | error failure => cases failure <;> rfl

theorem of_rows_renumber (number : Nat → Nat) (place other : Nat) (rows : List (List Char))
    (moved : ∀ shift < rows.length, number (place + shift) = other + shift) :
    ofRows other rows = renumberRead number (ofRows place rows) := by
  induction rows generalizing place other with
  | nil => rfl
  | cons row more ih =>
      have here : number place = other := moved 0 (Nat.succ_pos _)
      have first : (ofRow other row).map Option.toList = renumberRead number ((ofRow place row).map Option.toList) := by
        rw [← here, of_row_renumber number place row, map_to_list, renumberRead]
      have rest : ofRows (other + 1) more = renumberRead number (ofRows (place + 1) more) := by
        apply ih
        intro shift inside
        have next := moved (shift + 1) (Nat.succ_lt_succ inside)
        rwa [Nat.add_comm shift, ← Nat.add_assoc, ← Nat.add_assoc] at next
      rw [of_rows_cons, of_rows_cons, renumber_followed_by, first, rest]

theorem of_rows_shift (offset place : Nat) (rows : List (List Char)) :
    ofRows (offset + place) rows = renumberRead (fun line => offset + line) (ofRows place rows) :=
  of_rows_renumber _ place (offset + place) rows fun shift _ => (Nat.add_assoc offset place shift).symm

theorem of_rows_feed (front back : List Char) :
    ofRows 1 (Row.cut (front ++ '\n' :: back)) =
      followedBy (ofRows 1 (Row.cut front))
        (renumberRead (fun line => (Row.cut front).length + line) (ofRows 1 (Row.cut back))) := by
  rw [Row.cut_append, of_rows_append, Nat.add_comm 1, of_rows_shift]

theorem followed_by_nothing (read : Except Error (List Line)) : followedBy read (.ok []) = read := by
  cases read <;> simp [followedBy, Except.bind, Except.map]

theorem nothing_followed_by (read : Except Error (List Line)) : followedBy (.ok []) read = read := by
  cases read <;> rfl

end Line

namespace Source

def height (source : String) : Nat := (Row.cut source.toList).length

def lined (sources : List String) : String := "\n".intercalate sources

-- How many rows there are above the source at a place among several.
def heightAbove (sources : List String) (place : Nat) : Nat := ((sources.take place).map height).sum

end Source

end Offside
