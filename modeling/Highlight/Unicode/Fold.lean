/-
**Case folding.**

Two characters are equal up to case if they fold to the same one. Some characters fold to several:

* `Fold.simple`: the character a code point folds to;
* `Fold.equivalents`: the code points equal to one up to case;
* `Fold.expansions`: the code points that fold to several characters, with those characters.
-/

import Highlight.Unicode.Ranges

namespace Highlight.Unicode.Fold

/-- Code points that fold to another one, as the distance from the one before and the way to their
folding: even numbers are twice the distance forward, odd ones one less than twice the distance back. -/
def simpleText : List String :=
  ["65 64 1 64 1 64 1 64 1 64 1 64 1 64 1 64 1 64 1 64 1 64 1 64 1 64 1 64 1 64 1 64 1 64 1 ",
   "64 1 64 1 64 1 64 1 64 1 64 1 64 1 64 1 64 91 1550 11 64 1 64 1 64 1 64 1 64 1 64 1 64 ",
   "1 64 1 64 1 64 1 64 1 64 1 64 1 64 1 64 1 64 1 64 1 64 1 64 1 64 1 64 1 64 1 64 2 64 1 ",
   "64 1 64 1 64 1 64 1 64 1 64 34 2 2 2 2 2 2 2 2 2 2 2 2 2 2 2 2 2 2 2 2 2 2 2 2 2 2 2 2 ",
   "2 2 2 2 2 2 2 2 2 2 2 2 2 2 2 2 2 2 2 4 2 2 2 2 2 3 2 2 2 2 2 2 2 2 2 2 2 2 2 2 2 3 2 2 ",
   "2 2 2 2 2 2 2 2 2 2 2 2 2 2 2 2 2 2 2 2 2 2 2 2 2 2 2 2 2 2 2 2 2 2 2 2 2 2 2 2 2 2 2 2 ",
   "241 1 2 2 2 2 2 2 535 2 420 1 2 2 2 2 412 1 2 2 410 1 410 1 2 3 158 1 404 1 406 1 2 2 ",
   "410 1 414 2 422 1 418 1 2 4 422 1 426 2 428 1 2 2 2 2 2 2 436 1 2 2 436 3 2 2 436 1 2 2 ",
   "434 1 434 1 2 2 2 2 438 1 2 4 2 8 4 1 2 2 4 1 2 2 4 1 2 2 2 2 2 2 2 2 2 2 2 2 2 2 2 2 2 ",
   "3 2 2 2 2 2 2 2 2 2 2 2 2 2 2 2 2 2 3 4 1 2 2 2 2 193 1 111 1 2 2 2 2 2 2 2 2 2 2 2 2 2 ",
   "2 2 2 2 2 2 2 2 2 2 2 2 2 2 2 2 2 2 2 2 2 2 2 2 2 2 2 259 2 2 2 2 2 2 2 2 2 2 2 2 2 2 2 ",
   "2 2 2 8 21590 1 2 2 325 1 21584 3 2 2 389 1 138 1 142 1 2 2 2 2 2 2 2 2 2 247 232 43 2 ",
   "2 2 4 2 9 232 7 76 2 74 1 74 1 74 2 128 2 126 1 126 2 64 1 64 1 64 1 64 1 64 1 64 1 64 ",
   "1 64 1 64 1 64 1 64 1 64 1 64 1 64 1 64 1 64 1 64 2 64 1 64 1 64 1 64 1 64 1 64 1 64 1 ",
   "64 1 64 23 2 13 16 1 59 1 49 4 29 1 43 2 2 2 2 2 2 2 2 2 2 2 2 2 2 2 2 2 2 2 2 2 2 2 2 ",
   "2 107 1 95 3 119 1 127 2 2 2 13 1 2 3 259 1 259 1 259 1 160 1 160 1 160 1 160 1 160 1 ",
   "160 1 160 1 160 1 160 1 160 1 160 1 160 1 160 1 160 1 160 1 160 1 64 1 64 1 64 1 64 1 ",
   "64 1 64 1 64 1 64 1 64 1 64 1 64 1 64 1 64 1 64 1 64 1 64 1 64 1 64 1 64 1 64 1 64 1 64 ",
   "1 64 1 64 1 64 1 64 1 64 1 64 1 64 1 64 1 64 1 64 49 2 2 2 2 2 2 2 2 2 2 2 2 2 2 2 2 2 ",
   "2 2 2 2 2 2 2 2 2 2 2 2 2 2 2 2 10 2 2 2 2 2 2 2 2 2 2 2 2 2 2 2 2 2 2 2 2 2 2 2 2 2 2 ",
   "2 2 2 2 2 2 2 2 2 2 2 2 2 2 2 2 2 2 2 2 2 2 2 2 2 2 2 2 30 1 2 2 2 2 2 2 2 2 2 2 2 2 2 ",
   "3 2 2 2 2 2 2 2 2 2 2 2 2 2 2 2 2 2 2 2 2 2 2 2 2 2 2 2 2 2 2 2 2 2 2 2 2 2 2 2 2 2 2 2 ",
   "2 2 2 2 2 2 2 2 2 2 2 2 2 2 2 2 2 2 2 2 2 2 2 2 2 2 2 2 2 2 2 2 2 2 2 2 2 2 2 2 2 2 2 2 ",
   "2 2 2 2 2 2 2 2 3 96 1 96 1 96 1 96 1 96 1 96 1 96 1 96 1 96 1 96 1 96 1 96 1 96 1 96 1 ",
   "96 1 96 1 96 1 96 1 96 1 96 1 96 1 96 1 96 1 96 1 96 1 96 1 96 1 96 1 96 1 96 1 96 1 96 ",
   "1 96 1 96 1 96 1 96 1 96 1 96 2890 14528 1 14528 1 14528 1 14528 1 14528 1 14528 1 ",
   "14528 1 14528 1 14528 1 14528 1 14528 1 14528 1 14528 1 14528 1 14528 1 14528 1 14528 1 ",
   "14528 1 14528 1 14528 1 14528 1 14528 1 14528 1 14528 1 14528 1 14528 1 14528 1 14528 1 ",
   "14528 1 14528 1 14528 1 14528 1 14528 1 14528 1 14528 1 14528 1 14528 1 14528 2 14528 6 ",
   "14528 811 15 1 15 1 15 1 15 1 15 1 15 2179 12443 1 12441 1 12423 1 12419 1 12419 1 ",
   "12421 1 12407 1 12359 1 70534 8 6015 1 6015 1 6015 1 6015 1 6015 1 6015 1 6015 1 6015 1 ",
   "6015 1 6015 1 6015 1 6015 1 6015 1 6015 1 6015 1 6015 1 6015 1 6015 1 6015 1 6015 1 ",
   "6015 1 6015 1 6015 1 6015 1 6015 1 6015 1 6015 1 6015 1 6015 1 6015 1 6015 1 6015 1 ",
   "6015 1 6015 1 6015 1 6015 1 6015 1 6015 1 6015 1 6015 1 6015 1 6015 1 6015 3 6015 1 ",
   "6015 1 6015 321 2 2 2 2 2 2 2 2 2 2 2 2 2 2 2 2 2 2 2 2 2 2 2 2 2 2 2 2 2 2 2 2 2 2 2 2 ",
   "2 2 2 2 2 2 2 2 2 2 2 2 2 2 2 2 2 2 2 2 2 2 2 2 2 2 2 2 2 2 2 2 2 2 2 2 2 2 2 2 2 2 2 2 ",
   "2 2 2 2 2 2 2 2 2 2 2 2 2 2 2 2 2 2 2 2 2 2 2 2 2 2 2 2 2 2 2 2 2 2 2 2 2 2 2 2 2 2 2 2 ",
   "2 2 2 2 2 2 2 2 2 2 2 2 2 2 2 2 2 2 2 2 2 2 2 2 2 7 115 3 15229 2 2 2 2 2 2 2 2 2 2 2 2 ",
   "2 2 2 2 2 2 2 2 2 2 2 2 2 2 2 2 2 2 2 2 2 2 2 2 2 2 2 2 2 2 2 2 2 2 2 2 2 2 2 2 2 2 2 2 ",
   "2 2 2 2 2 2 2 2 2 2 2 2 2 2 2 2 2 2 2 2 2 2 2 2 2 2 2 2 2 2 2 2 2 2 2 2 2 2 2 2 10 15 1 ",
   "15 1 15 1 15 1 15 1 15 1 15 1 15 9 15 1 15 1 15 1 15 1 15 1 15 11 15 1 15 1 15 1 15 1 ",
   "15 1 15 1 15 1 15 9 15 1 15 1 15 1 15 1 15 1 15 1 15 1 15 9 15 1 15 1 15 1 15 1 15 1 15 ",
   "12 15 2 15 2 15 2 15 9 15 1 15 1 15 1 15 1 15 1 15 1 15 1 15 25 15 1 15 1 15 1 15 1 15 ",
   "1 15 1 15 1 15 9 15 1 15 1 15 1 15 1 15 1 15 1 15 1 15 9 15 1 15 1 15 1 15 1 15 1 15 1 ",
   "15 1 15 9 15 1 15 1 147 1 147 1 17 2 14345 10 171 1 171 1 171 1 171 1 17 12 15 1 15 1 ",
   "199 1 199 13 15 1 15 1 223 1 223 1 13 12 255 1 255 1 251 1 251 1 17 298 15033 4 16765 1 ",
   "16523 7 56 46 32 1 32 1 32 1 32 1 32 1 32 1 32 1 32 1 32 1 32 1 32 1 32 1 32 1 32 1 32 ",
   "1 32 20 2 819 52 1 52 1 52 1 52 1 52 1 52 1 52 1 52 1 52 1 52 1 52 1 52 1 52 1 52 1 52 ",
   "1 52 1 52 1 52 1 52 1 52 1 52 1 52 1 52 1 52 1 52 1 52 1841 96 1 96 1 96 1 96 1 96 1 96 ",
   "1 96 1 96 1 96 1 96 1 96 1 96 1 96 1 96 1 96 1 96 1 96 1 96 1 96 1 96 1 96 1 96 1 96 1 ",
   "96 1 96 1 96 1 96 1 96 1 96 1 96 1 96 1 96 1 96 1 96 1 96 1 96 1 96 1 96 1 96 1 96 1 96 ",
   "1 96 1 96 1 96 1 96 1 96 1 96 1 96 49 2 2 21485 1 7627 1 21453 3 2 2 2 2 2 2 21559 1 ",
   "21497 1 21565 1 21563 2 2 3 2 9 21629 1 21629 1 2 2 2 2 2 2 2 2 2 2 2 2 2 2 2 2 2 2 2 2 ",
   "2 2 2 2 2 2 2 2 2 2 2 2 2 2 2 2 2 2 2 2 2 2 2 2 2 2 2 2 2 2 2 2 2 2 2 2 2 2 2 2 2 2 2 2 ",
   "2 2 2 2 2 2 2 2 2 2 2 2 2 2 2 2 2 2 2 2 2 2 2 2 2 2 2 2 2 2 2 2 2 2 2 9 2 2 2 5 2 31054 ",
   "2 2 2 2 2 2 2 2 2 2 2 2 2 2 2 2 2 2 2 2 2 2 2 2 2 2 2 2 2 2 2 2 2 2 2 2 2 2 2 2 2 2 2 2 ",
   "2 20 2 2 2 2 2 2 2 2 2 2 2 2 2 2 2 2 2 2 2 2 2 2 2 2 2 2 2 136 2 2 2 2 2 2 2 2 2 2 2 2 ",
   "2 4 2 2 2 2 2 2 2 2 2 2 2 2 2 2 2 2 2 2 2 2 2 2 2 2 2 2 2 2 2 2 2 2 2 2 2 2 2 2 2 2 2 2 ",
   "2 2 2 2 2 2 2 2 2 2 2 2 2 2 2 2 2 2 2 11 2 2 2 2 70663 1 2 2 2 2 2 2 2 2 2 5 2 2 84559 ",
   "3 2 2 2 4 2 2 2 2 2 2 2 2 2 2 2 2 2 2 2 2 2 2 2 2 84615 1 84637 1 84629 1 84609 1 84615 ",
   "2 84515 1 84563 1 84521 1 1856 1 2 2 2 2 2 2 2 2 2 2 2 2 2 2 2 2 95 1 84613 1 70767 1 2 ",
   "2 2 7 2 6 2 2 2 29 2 891 77727 1 77727 1 77727 1 77727 1 77727 1 77727 1 77727 1 77727 ",
   "1 77727 1 77727 1 77727 1 77727 1 77727 1 77727 1 77727 1 77727 1 77727 1 77727 1 77727 ",
   "1 77727 1 77727 1 77727 1 77727 1 77727 1 77727 1 77727 1 77727 1 77727 1 77727 1 77727 ",
   "1 77727 1 77727 1 77727 1 77727 1 77727 1 77727 1 77727 1 77727 1 77727 1 77727 1 77727 ",
   "1 77727 1 77727 1 77727 1 77727 1 77727 1 77727 1 77727 1 77727 1 77727 1 77727 1 77727 ",
   "1 77727 1 77727 1 77727 1 77727 1 77727 1 77727 1 77727 1 77727 1 77727 1 77727 1 77727 ",
   "1 77727 1 77727 1 77727 1 77727 1 77727 1 77727 1 77727 1 77727 1 77727 1 77727 1 77727 ",
   "1 77727 1 77727 1 77727 1 77727 1 77727 1 77727 21346 64 1 64 1 64 1 64 1 64 1 64 1 64 ",
   "1 64 1 64 1 64 1 64 1 64 1 64 1 64 1 64 1 64 1 64 1 64 1 64 1 64 1 64 1 64 1 64 1 64 1 ",
   "64 1 64 1222 80 1 80 1 80 1 80 1 80 1 80 1 80 1 80 1 80 1 80 1 80 1 80 1 80 1 80 1 80 1 ",
   "80 1 80 1 80 1 80 1 80 1 80 1 80 1 80 1 80 1 80 1 80 1 80 1 80 1 80 1 80 1 80 1 80 1 80 ",
   "1 80 1 80 1 80 1 80 1 80 1 80 1 80 137 80 1 80 1 80 1 80 1 80 1 80 1 80 1 80 1 80 1 80 ",
   "1 80 1 80 1 80 1 80 1 80 1 80 1 80 1 80 1 80 1 80 1 80 1 80 1 80 1 80 1 80 1 80 1 80 1 ",
   "80 1 80 1 80 1 80 1 80 1 80 1 80 1 80 1 80 157 78 1 78 1 78 1 78 1 78 1 78 1 78 1 78 1 ",
   "78 1 78 1 78 2 78 1 78 1 78 1 78 1 78 1 78 1 78 1 78 1 78 1 78 1 78 1 78 1 78 1 78 1 78 ",
   "2 78 1 78 1 78 1 78 1 78 1 78 1 78 2 78 1 78 1771 128 1 128 1 128 1 128 1 128 1 128 1 ",
   "128 1 128 1 128 1 128 1 128 1 128 1 128 1 128 1 128 1 128 1 128 1 128 1 128 1 128 1 128 ",
   "1 128 1 128 1 128 1 128 1 128 1 128 1 128 1 128 1 128 1 128 1 128 1 128 1 128 1 128 1 ",
   "128 1 128 1 128 1 128 1 128 1 128 1 128 1 128 1 128 1 128 1 128 1 128 1 128 1 128 1 128 ",
   "1 128 3054 64 1 64 1 64 1 64 1 64 1 64 1 64 1 64 1 64 1 64 1 64 1 64 1 64 1 64 1 64 1 ",
   "64 1 64 1 64 1 64 1 64 1 64 1 64 1 64 1 64 1 64 1 64 1 64 1 64 1 64 1 64 1 64 1 64 ",
   "21889 64 1 64 1 64 1 64 1 64 1 64 1 64 1 64 1 64 1 64 1 64 1 64 1 64 1 64 1 64 1 64 1 ",
   "64 1 64 1 64 1 64 1 64 1 64 1 64 1 64 1 64 1 64 1 64 1 64 1 64 1 64 1 64 1 64 31393 68 ",
   "1 68 1 68 1 68 1 68 1 68 1 68 1 68 1 68 1 68 1 68 1 68 1 68 1 68 1 68 1 68 1 68 1 68 1 ",
   "68 1 68 1 68 1 68 1 68 1 68 1 68 1 68 1 68 1 68 1 68 1 68 1 68 1 68 1 68 1 68"]

/-- Code points that fold to several, the number of these and these. -/
def expansionText : List String :=
  ["223 2 115 115 304 2 105 775 329 2 700 110 496 2 106 780 912 3 953 776 769 944 3 965 776 ",
   "769 1415 2 1381 1410 7830 2 104 817 7831 2 116 776 7832 2 119 778 7833 2 121 778 7834 2 ",
   "97 702 7838 2 115 115 8016 2 965 787 8018 3 965 787 768 8020 3 965 787 769 8022 3 965 ",
   "787 834 8064 2 7936 953 8065 2 7937 953 8066 2 7938 953 8067 2 7939 953 8068 2 7940 953 ",
   "8069 2 7941 953 8070 2 7942 953 8071 2 7943 953 8072 2 7936 953 8073 2 7937 953 8074 2 ",
   "7938 953 8075 2 7939 953 8076 2 7940 953 8077 2 7941 953 8078 2 7942 953 8079 2 7943 ",
   "953 8080 2 7968 953 8081 2 7969 953 8082 2 7970 953 8083 2 7971 953 8084 2 7972 953 ",
   "8085 2 7973 953 8086 2 7974 953 8087 2 7975 953 8088 2 7968 953 8089 2 7969 953 8090 2 ",
   "7970 953 8091 2 7971 953 8092 2 7972 953 8093 2 7973 953 8094 2 7974 953 8095 2 7975 ",
   "953 8096 2 8032 953 8097 2 8033 953 8098 2 8034 953 8099 2 8035 953 8100 2 8036 953 ",
   "8101 2 8037 953 8102 2 8038 953 8103 2 8039 953 8104 2 8032 953 8105 2 8033 953 8106 2 ",
   "8034 953 8107 2 8035 953 8108 2 8036 953 8109 2 8037 953 8110 2 8038 953 8111 2 8039 ",
   "953 8114 2 8048 953 8115 2 945 953 8116 2 940 953 8118 2 945 834 8119 3 945 834 953 ",
   "8124 2 945 953 8130 2 8052 953 8131 2 951 953 8132 2 942 953 8134 2 951 834 8135 3 951 ",
   "834 953 8140 2 951 953 8146 3 953 776 768 8147 3 953 776 769 8150 2 953 834 8151 3 953 ",
   "776 834 8162 3 965 776 768 8163 3 965 776 769 8164 2 961 787 8166 2 965 834 8167 3 965 ",
   "776 834 8178 2 8060 953 8179 2 969 953 8180 2 974 953 8182 2 969 834 8183 3 969 834 953 ",
   "8188 2 969 953 64256 2 102 102 64257 2 102 105 64258 2 102 108 64259 3 102 102 105 ",
   "64260 3 102 102 108 64261 2 115 116 64262 2 115 116 64275 2 1396 1398 64276 2 1396 1381 ",
   "64277 2 1396 1387 64278 2 1406 1398 64279 2 1396 1389"]

/-- Pairs of a code point and what it folds to, in order of the former. -/
def pairs : Array (Nat × Nat) :=
  let step : (Array (Nat × Nat) × Nat × Option Nat) → Nat → Array (Nat × Nat) × Nat × Option Nat
    | (out, _, some code), way =>
      (out.push (code, if way % 2 == 0 then code + way / 2 else code - (way + 1) / 2), code, none)
    | (out, last, none), distance => (out, last, some (last + distance))
  ((numbers (" ".intercalate simpleText)).foldl step (#[], 0, none)).1

/-- The code points that fold to another one. -/
def sources : Array Nat := pairs.map (·.1)

/-- What the code points of `sources` fold to. -/
def targets : Array Nat := pairs.map (·.2)

/-- The character a code point folds to. -/
def simple (code : Nat) : Nat :=
  if code < 128 then
    if 65 ≤ code ∧ code ≤ 90 then code + 32 else code
  else
    let place := countUpTo sources code 0 sources.size
    if place != 0 && sources.getD (place - 1) 0 == code then targets.getD (place - 1) code else code

/-- The code points equal to `code` up to case, itself among them. -/
def equivalents (code : Nat) : List Nat :=
  let folded := simple code
  folded :: (pairs.toList.filter fun pair => pair.2 == folded).map (·.1)

/-- The code points that fold to several characters, with these. -/
def expansions : List (Nat × List Nat) :=
  let step : (List (Nat × List Nat) × Option Nat × Option Nat × List Nat) → Nat →
      List (Nat × List Nat) × Option Nat × Option Nat × List Nat
    | (out, none, _, _), code => (out, some code, none, [])
    | (out, some code, none, _), count => (out, some code, some count, [])
    | (out, some code, some count, chars), char =>
      if chars.length + 1 == count then ((code, (char :: chars).reverse) :: out, none, none, [])
      else (out, some code, some count, char :: chars)
  ((numbers (" ".intercalate expansionText)).foldl step ([], none, none, [])).1.reverse

end Highlight.Unicode.Fold
