import WWindowSystem.Server.ContentsRun
import WWindowSystem.Server.ColorSharing
import WWindowSystem.Server.BlockRun
import WWindowSystem.Server.OffsetRun
import WWindowSystem.Server.StoreRun
import WWindowSystem.Lib.RowsRun
import WWindowSystem.Lib.SettingsRun
import WWindowSystem.Lib.Fonts
import WWindowSystem.Lib.SocketRun
import WWindowSystem.Wt.VtRefines
import WWindowSystem.Lib.BlockCallsKept
import WWindowSystem.Wt.TimeoutsRun
import WWindowSystem.Wt.InputsUnion
import WWindowSystem.Wt.VtAgree
import WWindowSystem.Wt.VtWindowRun
import WWindowSystem.Wt.GetstringOptions
import WWindowSystem.Wt.WidgetTimersRun
import WWindowSystem.Wetscape.TextDeliveries
import WWindowSystem.Wetscape.UrlMakeRun
import WWindowSystem.Wetscape.HttpSplits
import WWindowSystem.Netgames.Interleavings
import WWindowSystem.Wetscape.GifFile
import WWindowSystem.Netgames.ReversiAgree
import WWindowSystem.Netgames.Undo
import WWindowSystem.Apps.WtermRun
import WWindowSystem.Fonts.SaveLoad
import WWindowSystem.Server.RectShorts
import WWindowSystem.Graph.Dline
import WWindowSystem.Server.CreateFailure
import WWindowSystem.Graph.PackedBitblk
import WWindowSystem.Graph.Prints
import WWindowSystem.Graph.PolygonFill
import WWindowSystem.Wt.Packer
import WWindowSystem.Graph.Outline
import WWindowSystem.Graph.ThickEllipse
import WWindowSystem.Lib.Fontmisc
import WWindowSystem.Server.Pointer
import WWindowSystem.Lib.Img
import WWindowSystem.Lib.Palette
import WWindowSystem.Lib.Pbm
import WWindowSystem.Wt.Edittext
import WWindowSystem.Lib.Fill
import WWindowSystem.Server.EventClient
import WWindowSystem.Server.FontUse
import WWindowSystem.Wetscape.UrlLists
import WWindowSystem.Wetscape.Image
import WWindowSystem.Wetscape.HttpValue
import WWindowSystem.Wt.HtmlStyles
import WWindowSystem.Wt.HtmlMarkup
import WWindowSystem.Netgames.ChessGame
import WWindowSystem.Lib.Isqrt
import WWindowSystem.Fonts.ConvertChar
import WWindowSystem.Fonts.LoadFont
import WWindowSystem.Lib.Dither
import WWindowSystem.Apps.Jewel
import WWindowSystem.Wt.Viewport
import WWindowSystem.Server.Mouse
