import PyFits.Python.Float
import PyFits.Python.Text
import PyFits.Python.Decimal
import PyFits.NumPy.Array
import PyFits.Column
import PyFits.Store
import PyFits.Field
import PyFits.ScaleBack
import PyFits.Record
import PyFits.Table
import PyFits.RecordWindow
import PyFits.AsciiLayout
import PyFits.ScaleBackFrame
import PyFits.Isolation
import PyFits.AsciiNull
import PyFits.AsciiRoundTrip
import PyFits.ScaledValues
import PyFits.HeapLayout
import PyFits.FieldCache
import PyFits.SliceView
import PyFits.ScaleBackOblivious
import PyFits.RowAssign
import PyFits.LogicalTable
import PyFits.Reload
import PyFits.HeapLoop
