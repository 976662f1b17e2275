import Snippet.Text.Basic

/-!
# Units of measure

Units have a category and the size of one unit in the base unit of its category: metre, kilogram,
litre, byte and second. Temperatures are scales of their own, converted through degrees Celsius.
-/

namespace Snippet

/-- What a unit measures, other than temperatures. -/
inductive Category where
  | length
  | mass
  | volume
  | data
  | time
  deriving DecidableEq, Repr

/-- A temperature scale. -/
inductive TemperatureScale where
  | celsius
  | fahrenheit
  | kelvin
  deriving DecidableEq, Repr

/-- A unit of measure. -/
inductive Measure where
  /-- A unit with its size in the base unit of its category. -/
  | scaled (category : Category) (factor : Float)
  | temperature (scale : TemperatureScale)

namespace TemperatureScale

/-- Degrees Celsius for a value on a scale. -/
def toCelsius (s : TemperatureScale) (x : Float) : Float :=
  match s with
  | celsius => x
  | fahrenheit => (x - 32.0) * 5.0 / 9.0
  | kelvin => x - 273.15

/-- The value on a scale for degrees Celsius. -/
def ofCelsius (s : TemperatureScale) (x : Float) : Float :=
  match s with
  | celsius => x
  | fahrenheit => x * 9.0 / 5.0 + 32.0
  | kelvin => x + 273.15

end TemperatureScale

namespace Measure

/-- The names of the units that scale, with their category and size. -/
def scaledUnits : List (List String × Category × Float) :=
  [(["mm", "millimeter", "millimeters", "millimetre", "millimetres"], .length, 0.001),
   (["cm", "centimeter", "centimeters", "centimetre", "centimetres"], .length, 0.01),
   (["m", "meter", "meters", "metre", "metres"], .length, 1.0),
   (["km", "kilometer", "kilometers", "kilometre", "kilometres"], .length, 1000.0),
   (["in", "inch", "inches", "\""], .length, 0.0254),
   (["ft", "foot", "feet", "'"], .length, 0.3048),
   (["yd", "yard", "yards"], .length, 0.9144),
   (["mi", "mile", "miles"], .length, 1609.344),
   (["nmi", "nautical mile", "nautical miles"], .length, 1852.0),
   (["mg", "milligram", "milligrams"], .mass, 0.000001),
   (["g", "gram", "grams"], .mass, 0.001),
   (["kg", "kilogram", "kilograms", "kilo", "kilos"], .mass, 1.0),
   (["t", "tonne", "tonnes", "metric ton", "metric tons"], .mass, 1000.0),
   (["oz", "ounce", "ounces"], .mass, 0.028349523125),
   (["lb", "lbs", "pound", "pounds"], .mass, 0.45359237),
   (["st", "stone", "stones"], .mass, 6.35029318),
   (["ml", "milliliter", "milliliters", "millilitre", "millilitres"], .volume, 0.001),
   (["cl", "centiliter", "centiliters"], .volume, 0.01),
   (["dl", "deciliter", "deciliters"], .volume, 0.1),
   (["l", "liter", "liters", "litre", "litres"], .volume, 1.0),
   (["tsp", "teaspoon", "teaspoons"], .volume, 0.00492892159375),
   (["tbsp", "tablespoon", "tablespoons"], .volume, 0.01478676478125),
   (["fl oz", "floz", "fluid ounce", "fluid ounces"], .volume, 0.0295735295625),
   (["cup", "cups"], .volume, 0.2365882365),
   (["pt", "pint", "pints"], .volume, 0.473176473),
   (["qt", "quart", "quarts"], .volume, 0.946352946),
   (["gal", "gallon", "gallons"], .volume, 3.785411784),
   (["b", "byte", "bytes"], .data, 1.0),
   (["kb", "kilobyte", "kilobytes"], .data, 1000.0),
   (["mb", "megabyte", "megabytes"], .data, 1000000.0),
   (["gb", "gigabyte", "gigabytes"], .data, 1000000000.0),
   (["tb", "terabyte", "terabytes"], .data, 1000000000000.0),
   (["kib", "kibibyte", "kibibytes"], .data, 1024.0),
   (["mib", "mebibyte", "mebibytes"], .data, 1048576.0),
   (["gib", "gibibyte", "gibibytes"], .data, 1073741824.0),
   (["ms", "millisecond", "milliseconds"], .time, 0.001),
   (["s", "sec", "secs", "second", "seconds"], .time, 1.0),
   (["min", "mins", "minute", "minutes"], .time, 60.0),
   (["h", "hr", "hrs", "hour", "hours"], .time, 3600.0),
   (["d", "day", "days"], .time, 86400.0),
   (["wk", "week", "weeks"], .time, 604800.0)]

/-- The names of the temperature scales. -/
def temperatureUnits : List (List String × TemperatureScale) :=
  [(["c", "°c", "celsius", "degc"], .celsius),
   (["f", "°f", "fahrenheit", "degf"], .fahrenheit),
   (["k", "kelvin"], .kelvin)]

/-- A letter of a unit name as a small letter. The Kelvin sign has `k` as its small letter; no other
character beyond ASCII has a letter of a unit name as its whole small form. -/
def lowerLetter (c : Char) : Char := if c == '\u212a' then 'k' else c.toLower

/-- The key under which a written unit name is looked up. -/
def key (name : Text) : Text :=
  (Text.dropWhileEnd (· == '.') (Text.trim name)).map lowerLetter

/-- The unit of a given key. -/
def ofKey? (key : Text) : Option Measure :=
  let named := fun (names : List String) => names.contains (String.ofList key)
  match scaledUnits.find? fun u => named u.1 with
  | some (_, category, factor) => some (.scaled category factor)
  | none => (temperatureUnits.find? fun u => named u.1).map fun u => .temperature u.2

/-- The unit with a name, in any case. -/
def lookup? (name : Text) : Option Measure := ofKey? (key name)

/-- Converts a value between units of one category. -/
def convert? (x : Float) : (source target : Measure) → Option Float
  | .scaled a m, .scaled b n => if a = b then some (x * m / n) else none
  | .temperature s, .temperature t => some (t.ofCelsius (s.toCelsius x))
  | _, _ => none

end Measure

end Snippet
