import WWindowSystem.Netgames.Reversi

namespace WWindowSystem.Reversi

open List

variable {b b' b'' : Board} {me : color_t} {d d' : Int × Int} {x y u v : Int} {n m k : Nat} {P : Int → Int → Prop}

theorem Painted.closes_iff (h : Painted b' b me P) (hoff : ∀ k, 0 < k → ¬ P (ray_x d x k) (ray_y d y k)) :
    Closes b' me d x y ↔ Closes b me d x y := by
  constructor
  · rintro ⟨n, h0, hn⟩
    exact ⟨n, h0, (h.run_iff hoff n).mp hn⟩
  · rintro ⟨n, h0, hn⟩
    exact ⟨n, h0, (h.run_iff hoff n).mpr hn⟩

theorem Painted.turn (hme : me ≠ .EMPTY) (h : Painted b' b me P) (hrun : Run b me d x y n) (h' : Painted b'' b' me (beam d x y n)) :
    Painted b'' b me (fun u v => P u v ∨ Turned b me d x y u v) := by
  apply (h.trans h').congr
  intro u v
  rw [turned_iff hme hrun]

theorem Painted.pass (h : Painted b' b me P) (hno : ¬ Closes b me d x y) :
    Painted b' b me (fun u v => P u v ∨ Turned b me d x y u v) := by
  apply h.congr
  intro u v
  exact ⟨.inl, fun hpt => hpt.resolve_right fun ht => hno (turned_closes ht)⟩

variable {σ : Type}

structure DirStep (b : Board) (me : color_t) (x y : Int) (step : σ → Int × Int → σ) (board : σ → Board) (hit : σ → Prop) : Prop where
  paints : ∀ s d P, IsDir d → Painted (board s) b me P → (∀ k, 0 < k → ¬ P (ray_x d x k) (ray_y d y k)) →
    Painted (board (step s d)) b me (fun u v => P u v ∨ Turned b me d x y u v)
  hits : ∀ s d P, IsDir d → Painted (board s) b me P → (∀ k, 0 < k → ¬ P (ray_x d x k) (ray_y d y k)) →
    (hit (step s d) ↔ hit s ∨ Closes b me d x y)

theorem turned_off_ray (hd : IsDir d) (hd' : IsDir d') (hne : d ≠ d') (hk : 0 < k) : ¬ Turned b me d x y (ray_x d' x k) (ray_y d' y k) := by
  rintro ⟨n, -, j, h0, -, hx, hy⟩
  exact hne (ray_inj hd hd' h0 hk hx.symm hy.symm).1

theorem DirStep.run {step : σ → Int × Int → σ} {board : σ → Board} {hit : σ → Prop} (hstep : DirStep b me x y step board hit)
    (dirs : List (Int × Int)) (hdirs : ∀ d ∈ dirs, IsDir d) (hnodup : dirs.Nodup) {s : σ} (h : Painted (board s) b me P)
    (hoff : ∀ d ∈ dirs, ∀ k, 0 < k → ¬ P (ray_x d x k) (ray_y d y k)) :
    Painted (board (dirs.foldl step s)) b me (fun u v => P u v ∨ ∃ d ∈ dirs, Turned b me d x y u v) ∧
      (hit (dirs.foldl step s) ↔ hit s ∨ ∃ d ∈ dirs, Closes b me d x y) := by
  induction dirs generalizing s P with
  | nil => exact ⟨h.congr (by simp), by simp⟩
  | cons d dirs ih =>
    rw [nodup_cons] at hnodup
    have hd := hdirs d mem_cons_self
    have hoffd := hoff d mem_cons_self
    have hoff' : ∀ d' ∈ dirs, ∀ k, 0 < k → ¬ (P (ray_x d' x k) (ray_y d' y k) ∨ Turned b me d x y (ray_x d' x k) (ray_y d' y k)) := by
      rintro d' hd' k hk (hp | ht)
      · exact hoff d' (mem_cons_of_mem _ hd') k hk hp
      · exact turned_off_ray hd (hdirs d' (mem_cons_of_mem _ hd')) (fun he => hnodup.1 (he ▸ hd')) hk ht
    have ⟨hpaint, hhit⟩ := ih (fun d' hd' => hdirs d' (mem_cons_of_mem _ hd')) hnodup.2 (hstep.paints s d P hd h hoffd) hoff'
    rw [foldl_cons]
    constructor
    · apply hpaint.congr
      intro u v
      simp [or_assoc]
    · rw [hhit, hstep.hits s d P hd h hoffd]
      simp [or_assoc]

def Legal (b : Board) (me : color_t) (x y : Int) : Prop := ∃ d ∈ table, Closes b me d x y

def moved (b : Board) (me : color_t) (x y u v : Int) : Prop := (u = x ∧ v = y) ∨ ∃ d ∈ table, Turned b me d x y u v

theorem dirs_dir : ∀ d ∈ Dirs, IsDir d := fun d hd => table_dir d (table_perm.mem_iff.mp hd)

theorem dirs_some {p : Int × Int → Prop} : (∃ d ∈ Dirs, p d) ↔ ∃ d ∈ table, p d := by
  simp only [table_perm.mem_iff]

theorem make_flips_step (hme : me ≠ .EMPTY) :
    DirStep b me x y (fun s d => make_flips x y me (OPPONENT me) d s) Prod.fst (fun _ : Board × Int => True) := by
  refine ⟨fun s d P hd h hoff => ?_, fun _ _ _ _ _ _ => by simp⟩
  unfold make_flips
  rcases flipper_ok (x := x) (y := y) (b := s.1) hme hd false with ⟨h0, hno⟩ | ⟨h0, hrun, -⟩
  · rw [if_neg (not_not.mpr h0)]
    exact h.pass fun hc => hno ((h.closes_iff hoff).mpr hc)
  · rw [if_pos (by omega)]
    rcases flipper_ok (x := x) (y := y) (b := s.1) hme hd true with ⟨-, hno⟩ | ⟨-, hrun', hflip⟩
    · exact absurd ⟨_, h0, hrun⟩ hno
    · exact h.turn hme ((h.run_iff hoff _).mp hrun') hflip

theorem flips_dir_step (hme : me ≠ .EMPTY) : DirStep b me x y (flips_dir me x y) Prod.snd (fun s => s.1 ≠ 0) := by
  constructor
  · intro s d P hd h hoff
    have hok := scan_ok (b := s.2) (x := x) (y := y) hme hd
    unfold flips_dir
    cases hs : scan s.2 me d x y with
    | none =>
      rw [hs] at hok
      exact h.pass fun hc => by
        obtain ⟨n, -, hn⟩ := (h.closes_iff hoff).mpr hc
        exact hok n hn
    | some r =>
      obtain ⟨u, v, n⟩ := r
      rw [hs] at hok
      obtain ⟨hrun, rfl, rfl⟩ := hok
      exact h.turn hme ((h.run_iff hoff n).mp hrun) (flip_back_painted n s.2)
  · intro s d P hd h hoff
    have hok := scan_ok (b := s.2) (x := x) (y := y) hme hd
    unfold flips_dir
    cases hs : scan s.2 me d x y with
    | none =>
      rw [hs] at hok
      have hno : ¬ Closes b me d x y := fun hc => by
        obtain ⟨n, -, hn⟩ := (h.closes_iff hoff).mpr hc
        exact hok n hn
      simp [hno]
    | some r =>
      obtain ⟨u, v, n⟩ := r
      rw [hs] at hok
      obtain ⟨hrun, rfl, rfl⟩ := hok
      have hrun' := (h.run_iff hoff n).mp hrun
      have hc : Closes b me d x y ↔ n ≠ 0 := by
        constructor
        · rintro ⟨m, h0, hm⟩
          rw [← hm.unique hme hrun']
          omega
        · intro h0
          exact ⟨n, by omega, hrun'⟩
      rw [hc]
      dsimp only
      omega

theorem best_dir_step (hme : me ≠ .EMPTY) : DirStep b me x y (best_dir me x y) Prod.snd (fun _ => True) := by
  refine ⟨fun s d P hd h hoff => ?_, fun _ _ _ _ _ _ => by simp⟩
  have hok := scan_ok (b := s.2) (x := x) (y := y) hme hd
  unfold best_dir
  cases hs : scan s.2 me d x y with
  | none =>
    rw [hs] at hok
    exact h.pass fun hc => by
      obtain ⟨n, -, hn⟩ := (h.closes_iff hoff).mpr hc
      exact hok n hn
  | some r =>
    obtain ⟨u, v, n⟩ := r
    rw [hs] at hok
    obtain ⟨hrun, rfl, rfl⟩ := hok
    have hrun' := (h.run_iff hoff n).mp hrun
    by_cases h0 : n ≠ 0
    · dsimp only
      rw [if_pos h0]
      exact h.turn hme hrun' (flip_back_painted n s.2)
    · dsimp only
      rw [if_neg h0]
      refine h.pass ?_
      rintro ⟨m, hm0, hm⟩
      have hmn := hm.unique hme hrun'
      omega

theorem target_off_ray (hd : IsDir d) (hk : 0 < k) : ¬ (ray_x d x k = x ∧ ray_y d y k = y) := ray_ne_start hd hk

theorem move_board_painted (hme : me ≠ .EMPTY) : Painted (move_board x y me (OPPONENT me) b).1 b me (moved b me x y) :=
  ((make_flips_step hme).run table table_dir (by decide) (s := (Board.set b x y me, 0)) set_painted
    fun d hd k hk => target_off_ray (table_dir d hd) hk).1

theorem flips_fold (hme : me ≠ .EMPTY) :
    Painted (Dirs.foldl (flips_dir me x y) (0, b)).2 b me (fun u v => ∃ d ∈ table, Turned b me d x y u v) ∧
      ((Dirs.foldl (flips_dir me x y) (0, b)).1 ≠ 0 ↔ Legal b me x y) := by
  have ⟨hp, hc⟩ := (flips_dir_step hme).run Dirs dirs_dir (by decide) (s := (0, b)) (x := x) (y := y) Painted.refl
    (fun _ _ _ _ h => h)
  rw [dirs_some] at hc
  constructor
  · apply hp.congr
    intro u v
    rw [dirs_some, false_or]
  · rw [hc]
    simp [Legal]

theorem flips_accepts (hme : me ≠ .EMPTY) : (flips b me x y).1 ≠ 0 ↔ Legal b me x y := by
  rw [← (flips_fold hme).2]
  unfold flips
  by_cases h : (Dirs.foldl (flips_dir me x y) (0, b)).1 ≠ 0
  · simp only [if_pos h]
  · simp only [if_neg h]
    exact ⟨fun h0 => absurd rfl h0, fun h0 => absurd h0 h⟩

theorem flips_board (hme : me ≠ .EMPTY) (hin : inside x y) (hlegal : Legal b me x y) :
    ∃ b', (flips b me x y).2 = some b' ∧ Painted b' b me (moved b me x y) := by
  have ⟨hp, hc⟩ := flips_fold (b := b) (x := x) (y := y) hme
  refine ⟨Board.set (Dirs.foldl (flips_dir me x y) (0, b)).2 x y me, ?_, ?_⟩
  · unfold flips
    simp only [if_pos (hc.mpr hlegal), if_pos hin]
  · apply (hp.trans set_painted).congr
    intro u v
    exact or_comm

theorem best_first_none (hme : me ≠ .EMPTY) (dirs : List (Int × Int)) (hdirs : ∀ d ∈ dirs, IsDir d)
    (h : best_first b me x y dirs = none) : ∀ d ∈ dirs, ¬ Closes b me d x y := by
  induction dirs with
  | nil => simp
  | cons d dirs ih =>
    have hok := scan_ok (b := b) (x := x) (y := y) hme (hdirs d mem_cons_self)
    have hrest := fun d' hd' => hdirs d' (mem_cons_of_mem d hd')
    rw [forall_mem_cons]
    unfold best_first at h
    cases hs : scan b me d x y with
    | none =>
      rw [hs] at h hok
      exact ⟨fun ⟨n, _, hn⟩ => hok n hn, ih hrest h⟩
    | some r =>
      obtain ⟨u, v, n⟩ := r
      rw [hs] at h hok
      dsimp only at h
      by_cases h0 : n ≠ 0
      · rw [if_pos h0] at h
        cases h
      · rw [if_neg h0] at h
        refine ⟨?_, ih hrest h⟩
        rintro ⟨m, hm0, hm⟩
        have hmn := hm.unique hme hok.1
        omega

theorem best_first_some (hme : me ≠ .EMPTY) (dirs : List (Int × Int)) (hdirs : ∀ d ∈ dirs, IsDir d) {rest : List (Int × Int)}
    (h : best_first b me x y dirs = some ((u, v, n), d, rest)) :
    Run b me d x y n ∧ 0 < n ∧ u = ray_x d x (n + 1) ∧ v = ray_y d y (n + 1) ∧
      ∃ before, dirs = before ++ d :: rest ∧ ∀ d' ∈ before, ¬ Closes b me d' x y := by
  induction dirs with
  | nil => cases h
  | cons d' dirs ih =>
    have hok := scan_ok (b := b) (x := x) (y := y) hme (hdirs d' mem_cons_self)
    have hrest := fun e he => hdirs e (mem_cons_of_mem d' he)
    unfold best_first at h
    cases hs : scan b me d' x y with
    | none =>
      rw [hs] at h hok
      obtain ⟨hrun, h0, hu, hv, before, rfl, hbefore⟩ := ih hrest h
      exact ⟨hrun, h0, hu, hv, d' :: before, rfl, forall_mem_cons.mpr ⟨fun ⟨n, _, hn⟩ => hok n hn, hbefore⟩⟩
    | some r =>
      obtain ⟨u', v', n'⟩ := r
      rw [hs] at h hok
      dsimp only at h
      by_cases h0 : n' ≠ 0
      · rw [if_pos h0] at h
        cases h
        exact ⟨hok.1, by omega, hok.2.1, hok.2.2, [], rfl, by simp⟩
      · rw [if_neg h0] at h
        obtain ⟨hrun, h0', hu, hv, before, rfl, hbefore⟩ := ih hrest h
        refine ⟨hrun, h0', hu, hv, d' :: before, rfl, forall_mem_cons.mpr ⟨?_, hbefore⟩⟩
        rintro ⟨m, hm0, hm⟩
        have hmn := hm.unique hme hok.1
        omega

theorem best_considers (hme : me ≠ .EMPTY) : (best_move b me x y).isSome ↔ b x y = .EMPTY ∧ Legal b me x y := by
  unfold best_move
  by_cases he : b x y = .EMPTY
  · rw [if_neg (not_not.mpr he), Option.isSome_map]
    cases hf : best_first b me x y Dirs with
    | none =>
      have hno := best_first_none hme Dirs dirs_dir hf
      have hlegal : ¬ Legal b me x y := fun ⟨d, hd, hc⟩ => hno d (table_perm.mem_iff.mpr hd) hc
      simp [hlegal]
    | some r =>
      obtain ⟨⟨u, v, n⟩, d, rest⟩ := r
      obtain ⟨hrun, h0, -, -, before, hl, -⟩ := best_first_some hme Dirs dirs_dir hf
      have hd : d ∈ Dirs := by rw [hl]; simp
      have hlegal : Legal b me x y := ⟨d, table_perm.mem_iff.mp hd, n, h0, hrun⟩
      simp [he, hlegal]
  · simp [he]

theorem best_board (hme : me ≠ .EMPTY) (he : b x y = .EMPTY) (hlegal : Legal b me x y) :
    ∃ new b', best_move b me x y = some (new, b') ∧ Painted b' b me (moved b me x y) := by
  have hsome := (best_considers hme).mpr ⟨he, hlegal⟩
  unfold best_move at hsome ⊢
  rw [if_neg (not_not.mpr he)] at hsome ⊢
  cases hf : best_first b me x y Dirs with
  | none =>
    rw [hf] at hsome
    cases hsome
  | some r =>
    obtain ⟨⟨u, v, n⟩, d, rest⟩ := r
    obtain ⟨hrun, h0, rfl, rfl, before, hl, hbefore⟩ := best_first_some hme Dirs dirs_dir hf
    have hdirs : ∀ e ∈ before ++ d :: rest, IsDir e := hl ▸ dirs_dir
    have hnodup : (before ++ d :: rest).Nodup := hl ▸ (by decide : Dirs.Nodup)
    have hd : IsDir d := hdirs d (by simp)
    have hrest : ∀ e ∈ rest, IsDir e := fun e hed => hdirs e (by simp [hed])
    have hrest_nodup := (nodup_cons.mp (nodup_append.mp hnodup).2.1)
    have hset : Painted (Board.set b x y me) b me (fun u v => u = x ∧ v = y) := set_painted
    have hfirst := hset.turn hme hrun (flip_back_painted n (Board.set b x y me))
    have hoff : ∀ e ∈ rest, ∀ k, 0 < k →
        ¬ ((ray_x e x k = x ∧ ray_y e y k = y) ∨ Turned b me d x y (ray_x e x k) (ray_y e y k)) := by
      rintro e hed k hk (hp | ht)
      · exact target_off_ray (hrest e hed) hk hp
      · exact turned_off_ray hd (hrest e hed) (fun hde => hrest_nodup.1 (hde ▸ hed)) hk ht
    have hrun_rest := ((best_dir_step hme).run rest hrest hrest_nodup.2 (s := (n, _)) hfirst hoff).1
    refine ⟨_, _, rfl, hrun_rest.congr fun u v => ?_⟩
    have htable : (∃ e ∈ table, Turned b me e x y u v) ↔ ∃ e ∈ before ++ d :: rest, Turned b me e x y u v := by
      rw [← hl, dirs_some]
    have hskip : ¬ ∃ e ∈ before, Turned b me e x y u v := fun ⟨e, hed, ht⟩ => hbefore e hed (turned_closes ht)
    rw [moved, htable]
    constructor
    · rintro ((hp | ht) | ⟨e, hed, ht⟩)
      · exact .inl hp
      · exact .inr ⟨d, by simp, ht⟩
      · exact .inr ⟨e, by simp [hed], ht⟩
    · rintro (hp | ⟨e, hed, ht⟩)
      · exact .inl (.inl hp)
      · rw [mem_append, mem_cons] at hed
        rcases hed with hb | rfl | hr
        · exact absurd ⟨e, hb, ht⟩ hskip
        · exact .inl (.inr ht)
        · exact .inr ⟨e, hr, ht⟩

theorem mem_places : (x, y) ∈ places ↔ inside x y := by
  simp only [places, mem_flatMap, mem_reverse, mem_range, mem_map, Prod.mk.injEq, inside, BWIDTH, BHEIGHT,
    BOARD_SIZE, Int.ofNat_eq_natCast]
  constructor
  · rintro ⟨i, hi, j, hj, rfl, rfl⟩
    omega
  · intro h
    exact ⟨x.toNat, by omega, y.toNat, by omega, by omega, by omega⟩

theorem my_move_iff {s : Engine} (hme : s.Mine.color ≠ .EMPTY) (hyour : s.Your.color = OPPONENT s.Mine.color) :
    my_move x y s = true ↔ inside x y ∧ s.Board x y = .EMPTY ∧ Legal s.Board s.Mine.color x y := by
  simp only [my_move, hyour, Bool.and_eq_true, decide_eq_true_eq, and_assoc, any_eq_true, Legal, bne_iff_ne]
  apply and_congr_right
  intro _
  apply and_congr_right
  intro _
  apply exists_congr
  intro d
  apply and_congr_right
  intro hd
  rcases flipper_ok (x := x) (y := y) (b := s.Board) hme (table_dir d hd) false with ⟨h0, hno⟩ | ⟨h0, hrun, -⟩
  · exact ⟨fun h => absurd h0 h, fun h => absurd h hno⟩
  · exact ⟨fun _ => ⟨_, h0, hrun⟩, fun _ => by omega⟩

theorem make_move_board {s : Engine} (hme : s.Mine.color ≠ .EMPTY) (hyour : s.Your.color = OPPONENT s.Mine.color) :
    Painted (make_move true x y s).Board s.Board s.Mine.color (moved s.Board s.Mine.color x y) := by
  have h := move_board_painted (b := s.Board) (x := x) (y := y) hme
  rw [← hyour] at h
  exact h

/-- The three programs take the place for a legal move of `Mine`, or none of them does, and they make the same board of it. -/
structure Agree (s : Engine) (x y : Int) : Prop where
  accepted : my_move x y s = true ↔ (flips s.Board s.Mine.color x y).1 ≠ 0
  considered : my_move x y s = true ↔ (x, y) ∈ places ∧ (best_move s.Board s.Mine.color x y).isSome = true
  same : my_move x y s = true → (flips s.Board s.Mine.color x y).2 = some (make_move true x y s).Board ∧
    (best_move s.Board s.Mine.color x y).map Prod.snd = some (make_move true x y s).Board

/-- They agree on empty places of the board, and wherever no line is closed. -/
theorem agree_iff (player : player_t) (s : Engine) (x y : Int) : Agree (set_side player s) x y ↔
      (inside x y ∧ s.Board x y = .EMPTY) ∨ ¬ Legal s.Board (set_side player s).Mine.color x y := by
  have hboard : (set_side player s).Board = s.Board := by cases player <;> rfl
  have hme : (set_side player s).Mine.color ≠ .EMPTY := by cases player <;> exact color_t.noConfusion
  have hyour : (set_side player s).Your.color = OPPONENT (set_side player s).Mine.color := by cases player <;> rfl
  have hoffer := my_move_iff (x := x) (y := y) hme hyour
  have haccept := flips_accepts (b := (set_side player s).Board) (x := x) (y := y) hme
  have hconsider := best_considers (b := (set_side player s).Board) (x := x) (y := y) hme
  rw [← hboard]
  constructor
  · intro h
    by_cases hlegal : Legal (set_side player s).Board (set_side player s).Mine.color x y
    · have hmine := hoffer.mp (h.accepted.mpr (haccept.mpr hlegal))
      exact .inl ⟨hmine.1, hmine.2.1⟩
    · exact .inr hlegal
  · intro h
    have hplace : Legal (set_side player s).Board (set_side player s).Mine.color x y →
        inside x y ∧ (set_side player s).Board x y = .EMPTY := fun hlegal => h.resolve_right (not_not.mpr hlegal)
    constructor
    · rw [hoffer, haccept]
      exact ⟨fun hm => hm.2.2, fun hlegal => ⟨(hplace hlegal).1, (hplace hlegal).2, hlegal⟩⟩
    · rw [hoffer, mem_places, hconsider]
    · intro hm
      obtain ⟨hin, hempty, hlegal⟩ := hoffer.mp hm
      have hmade := make_move_board (x := x) (y := y) hme hyour
      obtain ⟨b₁, h₁, hp₁⟩ := flips_board hme hin hlegal
      obtain ⟨new, b₂, h₂, hp₂⟩ := best_board hme hempty hlegal
      rw [h₁, h₂, hp₁.eq hmade, hp₂.eq hmade]
      exact ⟨rfl, rfl⟩

def answered : Engine where
  Board := (flips ((flips start_board .BLACK 2 3).2.getD start_board) .WHITE 2 2).2.getD start_board
  Backup := start_board
  Mine := ⟨.BLACK, 3⟩
  Your := ⟨.WHITE, 3⟩
  Passed := false

/-- The server lets Black play on its own stone. -/
theorem not_agree : ¬ Agree (set_side .Player1 answered) 2 3 := by
  intro h
  have hserver : (flips (set_side .Player1 answered).Board (set_side .Player1 answered).Mine.color 2 3).1 ≠ 0 := by decide +kernel
  have hclient : my_move 2 3 (set_side .Player1 answered) = false := by decide +kernel
  rw [h.accepted.mpr hserver] at hclient
  cases hclient

end WWindowSystem.Reversi
